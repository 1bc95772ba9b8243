import Mathlib.Data.Nat.Digits.Defs
import Mathlib.Tactic.Common

/-!
Texts as lists of bytes, and the decimal digits of a natural number in them.
-/

namespace Demiplane

abbrev Text := List UInt8

namespace Text

/-- The bytes of a text written in ASCII. -/
def ascii (s : String) : Text := s.toList.map Char.toUInt8

/-- What is checked of all 256 bytes. -/
@[elab_as_elim]
theorem forall_byte {p : UInt8 → Prop} (h : ∀ n : Fin 256, p (UInt8.ofNat n)) (c : UInt8) :
    p c := by
  simpa using h ⟨c.toNat, c.toNat_lt⟩

def isDigit (c : UInt8) : Bool := 48 ≤ c && c ≤ 57

/-- The digit of a number below ten. -/
def digit (d : ℕ) : UInt8 := UInt8.ofNat (48 + d)

def decimal (n : ℕ) : Text :=
  if n = 0 then [digit 0] else ((Nat.digits 10 n).map digit).reverse

/-- The number that a text of digits denotes. -/
def number (t : Text) : ℕ := t.foldl (fun n c => 10 * n + (c.toNat - 48)) 0

theorem digit_toNat {d : ℕ} (h : d < 10) : (digit d).toNat = 48 + d := by
  have hmod : (48 + d) % 256 = 48 + d := Nat.mod_eq_of_lt (by omega)
  simpa [digit] using hmod

theorem isDigit_iff {c : UInt8} : isDigit c = true ↔ 48 ≤ c.toNat ∧ c.toNat ≤ 57 := by
  simp only [isDigit, Bool.and_eq_true, decide_eq_true_eq, UInt8.le_iff_toNat_le]
  rfl

theorem isDigit_digit {d : ℕ} (h : d < 10) : isDigit (digit d) = true := by
  rw [isDigit_iff, digit_toNat h]
  omega

theorem decimal_ne_nil (n : ℕ) : decimal n ≠ [] := by
  unfold decimal
  split_ifs with h
  · exact List.cons_ne_nil _ _
  · simpa [Nat.digits_eq_nil_iff_eq_zero] using h

theorem isDigit_of_mem_decimal {n : ℕ} {c : UInt8} (h : c ∈ decimal n) : isDigit c = true := by
  unfold decimal at h
  split_ifs at h
  · obtain rfl := List.mem_singleton.mp h
    exact isDigit_digit (by omega)
  · obtain ⟨d, hd, rfl⟩ := List.mem_map.mp (List.mem_reverse.mp h)
    exact isDigit_digit (Nat.digits_lt_base (by omega) hd)

theorem number_append_digit (t : Text) {d : ℕ} (h : d < 10) :
    number (t ++ [digit d]) = 10 * number t + d := by
  simp [number, digit_toNat h]

/-- The digits come least significant first from `Nat.digits`; each one read is
the last one written. -/
theorem number_reverse_digits (ds : List ℕ) (h : ∀ d ∈ ds, d < 10) :
    number (ds.map digit).reverse = Nat.ofDigits 10 ds := by
  induction ds with
  | nil => rfl
  | cons d ds ih =>
    rw [List.map_cons, List.reverse_cons, number_append_digit _ (h d (by simp)),
      ih fun e he => h e (by simp [he]), Nat.ofDigits_cons]
    omega

@[simp] theorem number_decimal (n : ℕ) : number (decimal n) = n := by
  unfold decimal
  split_ifs with h
  · subst h
    rfl
  · rw [number_reverse_digits _ fun d hd => Nat.digits_lt_base (by omega) hd,
      Nat.ofDigits_digits]

end Text

end Demiplane

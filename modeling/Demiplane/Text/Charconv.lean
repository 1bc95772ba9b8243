import Mathlib.Algebra.Order.Ring.Int
import Mathlib.Data.List.Induction
import Mathlib.Data.List.TakeWhile
import Mathlib.Tactic.Positivity
import Mathlib.Tactic.Ring
import Demiplane.Text.Decimal

/-!
Integers in texts: the numeral at the start of a text, read into an integer type of some
width as `std::from_chars` does it, and the numeral of an integer.
-/

namespace Demiplane.Text

/-- An integer type of a machine. -/
structure IntType where
  signed : Bool
  bits : ℕ
  deriving DecidableEq, Repr

namespace IntType

def least (t : IntType) : ℤ := if t.signed then -2 ^ (t.bits - 1) else 0

def bound (t : IntType) : ℤ := if t.signed then 2 ^ (t.bits - 1) else 2 ^ t.bits

def Holds (t : IntType) (n : ℤ) : Prop := t.least ≤ n ∧ n < t.bound

instance (t : IntType) (n : ℤ) : Decidable (t.Holds n) :=
  inferInstanceAs (Decidable (t.least ≤ n ∧ n < t.bound))

/-- A cast from an unsigned number. -/
def wrap (t : IntType) (n : ℕ) : ℤ :=
  if t.signed then Int.bmod n (2 ^ t.bits) else n % 2 ^ t.bits

end IntType

def hyphen : UInt8 := 45

/-- `std::from_chars`: none if no numeral stands at the start of the text, or one that the
type does not hold. What follows the numeral does not matter, and only a signed type takes
a sign. -/
def fromChars (t : IntType) (text : Text) : Option ℤ :=
  let negative := t.signed && text.head? == some hyphen
  let digits := (if negative then text.tail else text).takeWhile isDigit
  let value : ℤ := if negative then -(number digits : ℤ) else number digits
  if digits = [] then none else if t.Holds value then some value else none

/-- The numeral of an integer. -/
def integer (n : ℤ) : Text :=
  if n < 0 then hyphen :: decimal n.natAbs else decimal n.natAbs

/-! ### Numerals -/

theorem isDigit_hyphen : isDigit hyphen = false := rfl

theorem takeWhile_digits {digits rest : Text} (hdigits : ∀ c ∈ digits, isDigit c = true)
    (hrest : (rest.head?.any isDigit) = false) :
    (digits ++ rest).takeWhile isDigit = digits := by
  rw [List.takeWhile_append_of_pos hdigits]
  cases rest with
  | nil => simp
  | cons c cs =>
    have hc : isDigit c = false := by simpa using hrest
    simp [hc]

theorem head_ne_hyphen {digits rest : Text} (hdigits : ∀ c ∈ digits, isDigit c = true)
    (hne : digits ≠ []) : ((digits ++ rest).head? == some hyphen) = false := by
  obtain ⟨c, cs, rfl⟩ := List.exists_cons_of_ne_nil hne
  have hc : c ≠ hyphen := by
    rintro rfl
    exact absurd (hdigits hyphen (by simp)) (by decide)
  simpa using hc

/-- Digits, and then something else. -/
theorem fromChars_digits (t : IntType) {digits rest : Text}
    (hdigits : ∀ c ∈ digits, isDigit c = true) (hne : digits ≠ [])
    (hrest : (rest.head?.any isDigit) = false) :
    fromChars t (digits ++ rest) =
      if t.Holds (number digits) then some (number digits : ℤ) else none := by
  simp only [fromChars, head_ne_hyphen hdigits hne, Bool.and_false, Bool.false_eq_true, if_false,
    takeWhile_digits hdigits hrest, if_neg hne]

/-- A sign, digits, and then something else. -/
theorem fromChars_hyphen (t : IntType) {digits rest : Text}
    (hdigits : ∀ c ∈ digits, isDigit c = true) (hne : digits ≠ [])
    (hrest : (rest.head?.any isDigit) = false) :
    fromChars t (hyphen :: (digits ++ rest)) =
      if t.signed = true ∧ t.Holds (-(number digits : ℤ)) then some (-(number digits : ℤ))
      else none := by
  cases hsigned : t.signed with
  | true =>
    simp only [fromChars, hsigned, List.head?_cons, beq_self_eq_true, Bool.and_true, if_true,
      List.tail_cons, takeWhile_digits hdigits hrest, if_neg hne, true_and]
  | false =>
    simp [fromChars, hsigned, isDigit_hyphen]

theorem fromChars_integer (t : IntType) (n : ℤ) :
    fromChars t (integer n) = if t.Holds n then some n else none := by
  have hdigits : ∀ c ∈ decimal n.natAbs, isDigit c = true := fun c => isDigit_of_mem_decimal
  have hne := decimal_ne_nil n.natAbs
  unfold integer
  split_ifs with hneg hholds hholds
  · rw [← List.append_nil (decimal _), fromChars_hyphen t hdigits hne rfl, number_decimal]
    have hn : -((n.natAbs : ℕ) : ℤ) = n := by omega
    rw [hn, if_pos]
    refine ⟨?_, hholds⟩
    by_contra hunsigned
    have hleast := hholds.1
    rw [IntType.least, if_neg hunsigned] at hleast
    omega
  · rw [← List.append_nil (decimal _), fromChars_hyphen t hdigits hne rfl, number_decimal]
    have hn : -((n.natAbs : ℕ) : ℤ) = n := by omega
    rw [hn, if_neg fun h => hholds h.2]
  · rw [← List.append_nil (decimal _), fromChars_digits t hdigits hne rfl, number_decimal]
    have hn : ((n.natAbs : ℕ) : ℤ) = n := by omega
    rw [hn, if_pos hholds]
  · rw [← List.append_nil (decimal _), fromChars_digits t hdigits hne rfl, number_decimal]
    have hn : ((n.natAbs : ℕ) : ℤ) = n := by omega
    rw [hn, if_neg hholds]

/-! ### What a text can denote -/

theorem number_lt (t : Text) (h : ∀ c ∈ t, isDigit c = true) : number t < 10 ^ t.length := by
  induction t using List.reverseRecOn with
  | nil => decide
  | append_singleton t c ih =>
    have hc := isDigit_iff.mp (h c (by simp))
    have hlast : number (t ++ [c]) = 10 * number t + (c.toNat - 48) := by simp [number]
    have hbefore := ih fun d hd => h d (by simp [hd])
    rw [hlast, List.length_append, List.length_singleton, Nat.pow_succ]
    omega

/-- What is read has no more digits than the text, which begins with a digit or a sign. -/
theorem fromChars_bounds {t : IntType} {text : Text} {n : ℤ} (h : fromChars t text = some n) :
    n.natAbs < 10 ^ text.length ∧
      ∃ c cs, text = c :: cs ∧ 45 ≤ c.toNat ∧ c.toNat ≤ 57 := by
  have hdigits : ∀ u : Text, number (u.takeWhile isDigit) < 10 ^ u.length := by
    intro u
    refine lt_of_lt_of_le (number_lt _ fun c hc => List.mem_takeWhile_imp hc) ?_
    exact Nat.pow_le_pow_right (by decide) (List.takeWhile_sublist _).length_le
  simp only [fromChars] at h
  split_ifs at h with hneg hnone hholds hnone hholds
  · -- a sign in front of the digits
    obtain ⟨c, cs, rfl⟩ : ∃ c cs, text = c :: cs := by
      cases text with
      | nil => simp at hneg
      | cons c cs => exact ⟨c, cs, rfl⟩
    have hc : c = hyphen := by simpa using (Bool.and_eq_true_iff.mp hneg).2
    subst hc
    have hlt := hdigits cs
    refine ⟨?_, hyphen, cs, rfl, by decide, by decide⟩
    rw [List.length_cons, Nat.pow_succ]
    have hn : n = -(number (cs.takeWhile isDigit) : ℤ) := (Option.some.inj h).symm
    omega
  · have hlt := hdigits text
    have hn : n = (number (text.takeWhile isDigit) : ℤ) := (Option.some.inj h).symm
    refine ⟨by omega, ?_⟩
    cases text with
    | nil => exact absurd rfl hnone
    | cons c cs =>
      have hc : isDigit c = true := by
        by_contra hc
        exact hnone (by simp [hc])
      rw [isDigit_iff] at hc
      exact ⟨c, cs, rfl, by omega, by omega⟩

theorem holds_of_fromChars {t : IntType} {text : Text} {n : ℤ} (h : fromChars t text = some n) :
    t.Holds n := by
  simp only [fromChars] at h
  split_ifs at h with _ _ hholds _ hholds
  · exact Option.some.inj h ▸ hholds
  · exact Option.some.inj h ▸ hholds

/-! ### Casts -/

/-- A signed cast, in terms of half the modulus. -/
theorem bmod_two_mul (x : ℤ) {p : ℕ} :
    Int.bmod x (2 * p) = if x % (2 * p) < p then x % (2 * p) else x % (2 * p) - 2 * p := by
  have hhalf : (((2 * p : ℕ) : ℤ) + 1) / 2 = p := by omega
  rw [Int.bmod_def, hhalf]
  push_cast
  rfl

theorem IntType.wrap_holds {t : IntType} (ht : 1 ≤ t.bits) (n : ℕ) : t.Holds (t.wrap n) := by
  obtain ⟨signed, bits⟩ := t
  obtain ⟨k, rfl⟩ : ∃ k, bits = k + 1 := ⟨bits - 1, by dsimp at ht; omega⟩
  have hp : (0 : ℤ) < 2 ^ k := by positivity
  cases signed with
  | true =>
    have hlow : 0 ≤ (n : ℤ) % (2 * (2 ^ k : ℕ)) := Int.emod_nonneg _ (by positivity)
    have hhigh : (n : ℤ) % (2 * (2 ^ k : ℕ)) < 2 * (2 ^ k : ℕ) :=
      Int.emod_lt_of_pos _ (by positivity)
    simp only [IntType.Holds, IntType.least, IntType.bound, IntType.wrap, if_true,
      Nat.add_sub_cancel]
    rw [Nat.pow_succ', bmod_two_mul]
    push_cast at hlow hhigh ⊢
    split_ifs <;> constructor <;> omega
  | false =>
    simp only [IntType.Holds, IntType.least, IntType.bound, IntType.wrap, Bool.false_eq_true,
      if_false]
    exact ⟨Int.emod_nonneg _ (by positivity), Int.emod_lt_of_pos _ (by positivity)⟩

/-- A cast from the two's complement of `v` in at least as many bits gives `v` back exactly
if the type holds it. -/
theorem IntType.wrap_eq_iff {t : IntType} (ht : 1 ≤ t.bits) {width : ℕ} (hw : t.bits ≤ width)
    (v : ℤ) : t.wrap (v % 2 ^ width).toNat = v ↔ t.Holds v := by
  constructor
  · intro h
    rw [← h]
    exact IntType.wrap_holds ht _
  · intro h
    obtain ⟨signed, bits⟩ := t
    obtain ⟨k, rfl⟩ : ∃ k, bits = k + 1 := ⟨bits - 1, by dsimp at ht; omega⟩
    have hp : (0 : ℤ) < 2 ^ k := by positivity
    have hcast : (((v % 2 ^ width).toNat : ℕ) : ℤ) = v % 2 ^ width :=
      Int.toNat_of_nonneg (Int.emod_nonneg _ (by positivity))
    have hmod : v % 2 ^ width % (2 * 2 ^ k) = v % (2 * 2 ^ k) := by
      refine Int.emod_emod_of_dvd v ?_
      rw [← pow_succ']
      exact pow_dvd_pow 2 hw
    obtain ⟨hleast, hbound⟩ := h
    cases signed with
    | true =>
      simp only [IntType.least, IntType.bound, IntType.wrap, if_true, Nat.add_sub_cancel] at *
      rw [Nat.pow_succ', bmod_two_mul, hcast]
      push_cast
      rw [hmod]
      by_cases hneg : v < 0
      · have hv : v % (2 * 2 ^ k) = v + 2 * 2 ^ k := by
          rw [← Int.add_emod_right, Int.emod_eq_of_lt (by omega) (by omega)]
        rw [hv]
        split_ifs <;> omega
      · rw [Int.emod_eq_of_lt (by omega) (by omega)]
        split_ifs <;> omega
    | false =>
      simp only [IntType.least, IntType.bound, IntType.wrap, Bool.false_eq_true, if_false] at *
      rw [hcast, pow_succ', hmod, Int.emod_eq_of_lt hleast]
      rwa [← pow_succ']

end Demiplane.Text

import Mathlib.Data.Nat.Digits.Lemmas
import Demiplane.Text.Decimal

/-!
Canonical decimal numerals: digits, and no zero in front of another digit. Each number has
exactly one, which is `decimal` of it.
-/

namespace Demiplane.Text

structure IsNumeral (t : Text) : Prop where
  ne_nil : t ≠ []
  digits : ∀ c ∈ t, isDigit c = true
  no_leading_zero : t.head? = some (digit 0) → t = [digit 0]

theorem digit_toNat_sub {c : UInt8} (h : isDigit c = true) : digit (c.toNat - 48) = c := by
  have hlow := (isDigit_iff.mp h).1
  rw [digit, Nat.add_sub_cancel' hlow, UInt8.ofNat_toNat]

theorem digit_eq_zero_iff {d : ℕ} (h : d < 10) : digit d = digit 0 ↔ d = 0 := by
  constructor
  · intro hdigit
    have hnat := congrArg UInt8.toNat hdigit
    rw [digit_toNat h, digit_toNat (by omega)] at hnat
    omega
  · rintro rfl
    rfl

theorem isNumeral_decimal (n : ℕ) : IsNumeral (decimal n) where
  ne_nil := decimal_ne_nil n
  digits := fun _ => isDigit_of_mem_decimal
  no_leading_zero := by
    unfold decimal
    split_ifs with h
    · exact fun _ => rfl
    -- the first digit of the numeral is the last one of `Nat.digits`, which is not zero
    · intro hhead
      have hne : Nat.digits 10 n ≠ [] := Nat.digits_ne_nil_iff_ne_zero.mpr h
      rw [List.head?_reverse, List.getLast?_map, List.getLast?_eq_getLast_of_ne_nil hne,
        Option.map_some, Option.some.injEq,
        digit_eq_zero_iff (Nat.digits_lt_base (by omega) (List.getLast_mem hne))] at hhead
      exact absurd hhead (Nat.getLast_digit_ne_zero 10 h)

theorem exists_digits {t : Text} (h : ∀ c ∈ t, isDigit c = true) :
    ∃ ds : List ℕ, (∀ d ∈ ds, d < 10) ∧ (ds.map digit).reverse = t := by
  refine ⟨(t.map fun c => c.toNat - 48).reverse, ?_, ?_⟩
  · intro d hd
    obtain ⟨c, hc, rfl⟩ := List.mem_map.mp (List.mem_reverse.mp hd)
    have hbounds := isDigit_iff.mp (h c hc)
    omega
  · rw [List.map_reverse, List.reverse_reverse, List.map_map]
    calc t.map (digit ∘ fun c => c.toNat - 48) = t.map id :=
          List.map_congr_left fun c hc => digit_toNat_sub (h c hc)
      _ = t := List.map_id t

/-- A number has no other numeral. -/
theorem IsNumeral.eq_decimal {t : Text} (h : IsNumeral t) : t = decimal (number t) := by
  obtain ⟨ds, hds, rfl⟩ := exists_digits h.digits
  by_cases hzero : (ds.map digit).reverse = [digit 0]
  · rw [hzero]
    rfl
  have hlast : ∀ hne : ds ≠ [], ds.getLast hne ≠ 0 := by
    intro hne hlast
    refine hzero (h.no_leading_zero ?_)
    rw [List.head?_reverse, List.getLast?_map, List.getLast?_eq_getLast_of_ne_nil hne, hlast,
      Option.map_some]
  have hdigits : Nat.digits 10 (Nat.ofDigits 10 ds) = ds :=
    Nat.digits_ofDigits 10 (by omega) ds hds hlast
  have hne : Nat.ofDigits 10 ds ≠ 0 := by
    intro hnumber
    rw [hnumber, Nat.digits_zero] at hdigits
    exact h.ne_nil (by simp [← hdigits])
  rw [number_reverse_digits ds hds, decimal, if_neg hne, hdigits]

end Demiplane.Text

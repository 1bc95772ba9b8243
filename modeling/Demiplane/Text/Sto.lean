import Demiplane.Conninfo.Parser
import Demiplane.Text.Charconv

/-!
`std::stoi` and its like: the numeral behind the white space at the start of a text, with or
without a sign. An exception of theirs is `none` here.
-/

namespace Demiplane.Text

open Conninfo (isSpace)

def plus : UInt8 := 43

/-- `std::stoi`, `std::stol`, read into the type; a sign stands directly before a digit. -/
def sto (t : IntType) (text : Text) : Option ℤ :=
  let rest := text.dropWhile isSpace
  if rest.head? = some plus then
    if rest.tail.head?.any isDigit then fromChars t rest.tail else none
  else fromChars t rest

/-- The numeral of an integer begins with a digit or with a hyphen. -/
theorem head?_integer (n : ℤ) :
    ∃ c, (integer n).head? = some c ∧ isSpace c = false ∧ c ≠ plus := by
  by_cases hn : n < 0
  · exact ⟨hyphen, by simp [integer, hn], by decide, by decide⟩
  · obtain ⟨c, cs, hcs⟩ := List.exists_cons_of_ne_nil (decimal_ne_nil n.natAbs)
    have hdigit : isDigit c = true := isDigit_of_mem_decimal (n := n.natAbs) (by simp [hcs])
    refine ⟨c, by simp [integer, hn, hcs], ?_, ?_⟩
    · have hbounds := isDigit_iff.mp hdigit
      have hne : c ≠ 32 := by
        rintro rfl
        exact absurd hdigit (by decide)
      have hle : ¬ c ≤ 13 := by
        rw [UInt8.le_iff_toNat_le]
        exact Nat.not_le_of_lt (Nat.lt_of_lt_of_le (by decide) hbounds.1)
      simp [isSpace, hne, hle]
    · rintro rfl
      exact absurd hdigit (by decide)

theorem sto_integer {t : IntType} {n : ℤ} (h : t.Holds n) : sto t (integer n) = some n := by
  obtain ⟨c, hhead, hspace, hplus⟩ := head?_integer n
  have hrest : (integer n).dropWhile isSpace = integer n := by
    cases htext : integer n with
    | nil => rfl
    | cons d ds =>
      rw [htext, List.head?_cons, Option.some.injEq] at hhead
      rw [List.dropWhile_cons, hhead, hspace]
      rfl
  have hsign : ¬ (integer n).head? = some plus := by simpa [hhead] using hplus
  rw [sto, hrest, if_neg hsign, fromChars_integer, if_pos h]

end Demiplane.Text

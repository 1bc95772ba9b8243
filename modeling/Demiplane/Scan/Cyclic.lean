import Mathlib.Data.Int.ModEq
import Mathlib.Data.Nat.Find
import Mathlib.Tactic.Common

/-!
Cyclic scans: `n` cells are visited one after the other from a starting point
on, and after the last cell the scan goes on with the first one. The starting
point is any number. Within `n` turns every cell is visited once.
-/

namespace Demiplane.Scan

/-- The cell visited at turn `k`. -/
def cell (n start k : ℕ) : ℕ := (start + k) % n

/-- `i` is the first cell of the scan with `P`. -/
def FirstFrom (n start : ℕ) (P : ℕ → Prop) (i : ℕ) : Prop :=
  ∃ k < n, cell n start k = i ∧ P i ∧ ∀ l < k, ¬ P (cell n start l)

/-- The scan visits `i` before `j`. -/
def Earlier (n start i j : ℕ) : Prop :=
  ∃ k < n, cell n start k = j ∧ ∃ l < k, cell n start l = i

variable {n start : ℕ}

theorem cell_lt (hn : 0 < n) (k : ℕ) : cell n start k < n :=
  Nat.mod_lt _ hn

theorem cell_inj {k l : ℕ} (hk : k < n) (hl : l < n) (h : cell n start k = cell n start l) :
    k = l := by
  have hmod : k ≡ l [MOD n] := Nat.ModEq.add_left_cancel' start h
  exact hmod.eq_of_lt_of_lt hk hl

theorem exists_cell (start : ℕ) {i : ℕ} (hi : i < n) : ∃ k < n, cell n start k = i := by
  have hn : 0 < n := Nat.zero_lt_of_lt hi
  refine ⟨(i + (n - start % n)) % n, Nat.mod_lt _ hn, ?_⟩
  have hstart : start % n ≤ n := (Nat.mod_lt start hn).le
  calc (start + (i + (n - start % n)) % n) % n
      = (start % n + (i + (n - start % n))) % n := by
        rw [Nat.add_mod_mod, Nat.mod_add_mod]
    _ = (i + n) % n := by congr 1; omega
    _ = i := by rw [Nat.add_mod_right, Nat.mod_eq_of_lt hi]

theorem exists_firstFrom (start : ℕ) {P : ℕ → Prop} (h : ∃ i < n, P i) :
    ∃ i, FirstFrom n start P i := by
  classical
  obtain ⟨i, hi, hP⟩ := h
  obtain ⟨k, hk, rfl⟩ := exists_cell start hi
  have hex : ∃ k, P (cell n start k) := ⟨k, hP⟩
  have hfirst : Nat.find hex < n := (Nat.find_min' hex hP).trans_lt hk
  exact ⟨_, Nat.find hex, hfirst, rfl, Nat.find_spec hex, fun _ hl => Nat.find_min hex hl⟩

theorem earlier_cell {i k : ℕ} (hk : k < n) :
    Earlier n start i (cell n start k) ↔ ∃ l < k, cell n start l = i := by
  constructor
  · rintro ⟨k', hk', hcell, l, hl, hi⟩
    obtain rfl := cell_inj hk' hk hcell
    exact ⟨l, hl, hi⟩
  · exact fun hl => ⟨k, hk, rfl, hl⟩

end Demiplane.Scan

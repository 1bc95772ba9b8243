import Mathlib.Tactic.Common

/-!
An array of fixed size that is filled from its first cell on. A write outside the array has no
result, so that a program over the array that returns has kept to it.
-/

namespace Demiplane.Buffer

variable {α : Type*} {n : ℕ}

/-- The array and the position of the next write. -/
structure Writer (α : Type*) (n : ℕ) where
  cells : Vector α n
  pos : ℕ

namespace Writer

def empty (n : ℕ) (x : α) : Writer α n := ⟨Vector.replicate n x, 0⟩

def put (w : Writer α n) (x : α) : Option (Writer α n) :=
  if h : w.pos < n then some ⟨w.cells.set w.pos x h, w.pos + 1⟩ else none

/-- What has been written, in order. -/
structure Holds (w : Writer α n) (xs : List α) : Prop where
  pos_eq : w.pos = xs.length
  length_le : xs.length ≤ n
  getElem?_cells : ∀ i < xs.length, w.cells[i]? = xs[i]?

theorem holds_empty (n : ℕ) (x : α) : (empty n x).Holds [] where
  pos_eq := rfl
  length_le := Nat.zero_le n
  getElem?_cells := fun i hi => absurd hi (Nat.not_lt_zero i)

theorem Holds.put {w : Writer α n} {xs : List α} (h : w.Holds xs) (hroom : xs.length < n)
    (x : α) : ∃ w', w.put x = some w' ∧ w'.Holds (xs ++ [x]) := by
  have hpos : w.pos < n := h.pos_eq ▸ hroom
  refine ⟨⟨w.cells.set w.pos x hpos, w.pos + 1⟩, dif_pos hpos, ?_, ?_, ?_⟩
  · simp [h.pos_eq]
  · rw [List.length_append, List.length_singleton]
    exact hroom
  · intro i hi
    rw [List.length_append, List.length_singleton, Nat.lt_succ_iff] at hi
    rcases Nat.lt_or_eq_of_le hi with hlt | rfl
    · have hne : w.pos ≠ i := by
        rw [h.pos_eq]
        exact (Nat.ne_of_lt hlt).symm
      rw [Vector.getElem?_set_ne _ hne, List.getElem?_append_left hlt]
      exact h.getElem?_cells i hlt
    · simp [h.pos_eq]

end Writer

/-- The cells before a position, the last one first, behind what has been read already. -/
def readBack (cells : Vector α n) : ℕ → List α → Option (List α)
  | 0, result => some result
  | i + 1, result => do readBack cells i (result ++ [← cells[i]?])

theorem Writer.Holds.readBack {w : Writer α n} {xs : List α} (h : w.Holds xs) :
    readBack w.cells w.pos [] = some xs.reverse := by
  -- the first cells are read last, so that the induction is on how many there are left
  have hrest : ∀ i ≤ xs.length, ∀ result,
      Buffer.readBack w.cells i result = some (result ++ (xs.take i).reverse) := by
    intro i
    induction i with
    | zero => simp [Buffer.readBack]
    | succ i ih =>
      intro hi result
      have hcell : w.cells[i]? = some xs[i] := by
        rw [h.getElem?_cells i hi, List.getElem?_eq_getElem hi]
      rw [Buffer.readBack, hcell]
      change Buffer.readBack w.cells i (result ++ [xs[i]]) = _
      rw [ih (Nat.le_of_succ_le hi), List.take_succ_eq_append_getElem hi, List.reverse_append,
        List.append_assoc]
      rfl
  rw [h.pos_eq, hrest xs.length (Nat.le_refl _), List.take_length, List.nil_append]

end Demiplane.Buffer

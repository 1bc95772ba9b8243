import Mathlib.Data.List.TakeWhile
import Demiplane.Text.Decimal

/-!
`std::getline` on a stream over a text, and the lines that a loop over it reads.
-/

namespace Demiplane.Text

/-- `std::getline`, with what is left in the stream. The delimiter is taken from the stream
and not put into the line. A stream with nothing left has no line, not even an empty one. -/
def getline (delim : UInt8) : Text → Option (Text × Text)
  | [] => none
  | c :: stream =>
      some ((c :: stream).takeWhile (· ≠ delim), ((c :: stream).dropWhile (· ≠ delim)).drop 1)

variable {delim : UInt8}

theorem length_of_getline {stream line rest : Text}
    (h : getline delim stream = some (line, rest)) : rest.length < stream.length := by
  cases stream with
  | nil => cases h
  | cons c stream =>
    obtain ⟨-, rfl⟩ := Prod.mk.inj (Option.some.inj h)
    have hle := List.length_dropWhile_le (fun b => decide (b ≠ delim)) (c :: stream)
    have hcons : (c :: stream).length = stream.length + 1 := rfl
    rw [List.length_drop]
    omega

/-- The lines of `while (std::getline(stream, line, delim))`. -/
def getlines (delim : UInt8) (stream : Text) : List Text :=
  match _h : getline delim stream with
  | none => []
  | some (line, rest) => line :: getlines delim rest
termination_by stream.length
decreasing_by exact length_of_getline _h

theorem getlines_of_none {stream : Text} (h : getline delim stream = none) :
    getlines delim stream = [] := by
  rw [getlines]
  split
  · rfl
  · next h' => cases h.symm.trans h'

theorem getlines_of_some {stream line rest : Text}
    (h : getline delim stream = some (line, rest)) :
    getlines delim stream = line :: getlines delim rest := by
  rw [getlines]
  split
  · next h' => cases h.symm.trans h'
  · next h' =>
    obtain ⟨rfl, rfl⟩ := Prod.mk.inj (Option.some.inj (h.symm.trans h'))
    rfl

theorem takeWhile_ne_of_not_mem {line : Text} (h : delim ∉ line) :
    ∀ c ∈ line, decide (c ≠ delim) = true :=
  fun _ hc => decide_eq_true fun heq => h (heq ▸ hc)

/-- A line that the delimiter ends. -/
theorem getline_append {line : Text} (h : delim ∉ line) (rest : Text) :
    getline delim (line ++ delim :: rest) = some (line, rest) := by
  have hall := takeWhile_ne_of_not_mem h
  cases hstream : line ++ delim :: rest with
  | nil => simp at hstream
  | cons c stream =>
    rw [getline, ← hstream, List.takeWhile_append_of_pos hall, List.dropWhile_append_of_pos hall]
    simp

/-- A line that the stream ends with. -/
theorem getline_last {line : Text} (h : delim ∉ line) (hne : line ≠ []) :
    getline delim line = some (line, []) := by
  have hall := takeWhile_ne_of_not_mem h
  cases line with
  | nil => exact absurd rfl hne
  | cons c line =>
    rw [getline, List.takeWhile_eq_self_iff.2 hall, List.dropWhile_eq_nil_iff.2 hall]
    rfl

/-- Reading lines inverts joining them, as long as none of them is empty: an empty line at the
end of the stream is not read. -/
theorem getlines_intercalate {delim : UInt8} (ls : List Text)
    (h : ∀ line ∈ ls, delim ∉ line ∧ line ≠ []) : getlines delim ([delim].intercalate ls) = ls := by
  induction ls with
  | nil => exact getlines_of_none rfl
  | cons line ls ih =>
    obtain ⟨hfree, hne⟩ := h line List.mem_cons_self
    have ih := ih fun l hl => h l (List.mem_cons_of_mem _ hl)
    cases ls with
    | nil =>
      rw [List.intercalate_singleton, getlines_of_some (getline_last hfree hne),
        getlines_of_none rfl]
    | cons next ls =>
      have hjoin : [delim].intercalate (line :: next :: ls) =
          line ++ delim :: [delim].intercalate (next :: ls) := by
        simp [List.intercalate]
      rw [hjoin, getlines_of_some (getline_append hfree _), ih]

/-- Lines that are each ended by the delimiter, empty ones among them. -/
theorem getlines_flatMap {delim : UInt8} (ls : List Text) (h : ∀ line ∈ ls, delim ∉ line) :
    getlines delim (ls.flatMap (· ++ [delim])) = ls := by
  induction ls with
  | nil => exact getlines_of_none rfl
  | cons line ls ih =>
    have hcons : (line :: ls).flatMap (· ++ [delim]) =
        line ++ delim :: ls.flatMap (· ++ [delim]) := by
      simp
    rw [hcons, getlines_of_some (getline_append (h line List.mem_cons_self) _),
      ih fun l hl => h l (List.mem_cons_of_mem _ hl)]

theorem flatMap_eq_intercalate {delim : UInt8} {ls : List Text} (hne : ls ≠ []) :
    ls.flatMap (· ++ [delim]) = [delim].intercalate ls ++ [delim] := by
  induction ls with
  | nil => exact absurd rfl hne
  | cons line ls ih =>
    cases ls with
    | nil => simp
    | cons next ls =>
      rw [List.flatMap_cons, ih (List.cons_ne_nil _ _)]
      simp [List.intercalate]

end Demiplane.Text

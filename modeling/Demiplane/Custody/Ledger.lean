import Mathlib.Logic.Basic
import Mathlib.Logic.Function.Basic
import Mathlib.Tactic.Common

/-!
Things that are always in one place. A program hands things on from place to
place; `sits x p` says that `x` is found at `p`. The things on the books are in
custody when each of them is found at exactly one place and nothing else is
found anywhere. Putting a thing on the books, taking it off and moving it keep
custody, provided that the program changes where that thing is found and
nothing else; these are the only ways in which the books change.
-/

namespace Demiplane.Custody

variable {H P : Type*} {books books' : H → Prop} {sits sits' : H → P → Prop} {x : H} {p q : P}

/-- Everything on the books is found at exactly one place, and nothing else is
found anywhere. -/
structure Held (books : H → Prop) (sits : H → P → Prop) : Prop where
  booked : ∀ {x p}, sits x p → books x
  found : ∀ {x}, books x → ∃ p, sits x p
  unique : ∀ {x p q}, sits x p → sits x q → p = q

namespace Held

theorem not_found (h : Held books sits) (hx : ¬ books x) (p : P) : ¬ sits x p :=
  fun hp => hx (h.booked hp)

/-- A new thing is put at `q`. -/
theorem issue (h : Held books sits) (hnew : ¬ books x)
    (hat : ∀ y r, sits' y r ↔ sits y r ∨ y = x ∧ r = q)
    (hbooks : ∀ y, books' y ↔ books y ∨ y = x) : Held books' sits' where
  booked {y r} hy := by
    rcases (hat y r).mp hy with hy | ⟨rfl, -⟩
    · exact (hbooks y).mpr (.inl (h.booked hy))
    · exact (hbooks y).mpr (.inr rfl)
  found {y} hy := by
    rcases (hbooks y).mp hy with hy | rfl
    · obtain ⟨r, hr⟩ := h.found hy
      exact ⟨r, (hat y r).mpr (.inl hr)⟩
    · exact ⟨q, (hat y q).mpr (.inr ⟨rfl, rfl⟩)⟩
  unique {y r s} hr hs := by
    rcases (hat y r).mp hr with hr | ⟨rfl, rfl⟩ <;> rcases (hat _ s).mp hs with hs | ⟨hyx, rfl⟩
    · exact h.unique hr hs
    · exact absurd (hyx ▸ hr) (h.not_found hnew r)
    · exact absurd hs (h.not_found hnew s)
    · rfl

/-- A thing is taken from `p` and off the books. -/
theorem retire (h : Held books sits) (hp : sits x p)
    (hat : ∀ y r, sits' y r ↔ sits y r ∧ ¬ (y = x ∧ r = p))
    (hbooks : ∀ y, books' y ↔ books y ∧ y ≠ x) : Held books' sits' where
  booked {y r} hy := by
    obtain ⟨hy, hne⟩ := (hat y r).mp hy
    refine (hbooks y).mpr ⟨h.booked hy, ?_⟩
    rintro rfl
    exact hne ⟨rfl, h.unique hy hp⟩
  found {y} hy := by
    obtain ⟨hy, hne⟩ := (hbooks y).mp hy
    obtain ⟨r, hr⟩ := h.found hy
    exact ⟨r, (hat y r).mpr ⟨hr, fun hyx => hne hyx.1⟩⟩
  unique {y r s} hr hs := h.unique ((hat y r).mp hr).1 ((hat y s).mp hs).1

/-- A thing that was taken from `p` in `sits` and put at `q` in `sits''` has moved. -/
theorem move {sits'' : H → P → Prop} (h : Held books sits) (hp : sits x p)
    (htake : ∀ y r, sits' y r ↔ sits y r ∧ ¬ (y = x ∧ r = p))
    (hput : ∀ y r, sits'' y r ↔ sits' y r ∨ y = x ∧ r = q) : Held books sits'' := by
  have htaken : Held (fun y => books y ∧ y ≠ x) sits' := h.retire hp htake fun _ => Iff.rfl
  refine htaken.issue (fun hx => hx.2 rfl) hput fun y => ⟨fun hy => ?_, ?_⟩
  · by_cases hyx : y = x
    · exact .inr hyx
    · exact .inl ⟨hy, hyx⟩
  · rintro (hy | rfl)
    · exact hy.1
    · exact h.booked hp

end Held

/-! ### Places that hold one thing at a time -/

section Cells

variable [DecidableEq P] {f : P → Option H}

/-- `x` is the thing that `p` holds. -/
def In (f : P → Option H) (x : H) (p : P) : Prop := f p = some x

namespace Held

/-- A new thing is put in an empty place. -/
theorem put (h : Held books (In f)) (hnew : ¬ books x) (hp : f p = none)
    (hbooks : ∀ y, books' y ↔ books y ∨ y = x) :
    Held books' (In (Function.update f p (some x))) := by
  refine h.issue (q := p) hnew (fun y r => ?_) hbooks
  by_cases hr : r = p
  · subst hr
    simp [In, hp, eq_comm]
  · simp [In, hr]

/-- Whatever a place holds goes off the books. -/
theorem discard (h : Held books (In f)) (p : P) (hbooks : ∀ y, books' y ↔ books y ∧ f p ≠ some y) :
    Held books' (In (Function.update f p none)) := by
  cases hp : f p with
  | none =>
      obtain rfl : books' = books := funext fun y => by simp [hbooks y, hp]
      rw [← hp, Function.update_eq_self]
      exact h
  | some x =>
      refine h.retire (x := x) hp (fun y r => ?_) fun y => ?_
      · by_cases hr : r = p
        · subst hr
          simp [In, hp, eq_comm]
        · simp [In, hr]
      · rw [hbooks y, hp, ne_eq, Option.some.injEq, eq_comm]

/-- Whatever `q` holds is carried to an empty place. -/
theorem carry (h : Held books (In f)) (hpq : p ≠ q) (hp : f p = none) :
    Held books (In (Function.update (Function.update f q none) p (f q))) := by
  cases hq : f q with
  | none =>
      rw [← hq, Function.update_eq_self, hq, ← hp, Function.update_eq_self]
      exact h
  | some x =>
      have htake (y : H) (r : P) :
          In (Function.update f q none) y r ↔ In f y r ∧ ¬ (y = x ∧ r = q) := by
        by_cases hr : r = q
        · subst hr
          simp [In, hq, eq_comm]
        · simp [In, hr]
      refine h.move (q := p) hq htake fun y r => ?_
      by_cases hr : r = p
      · subst hr
        simp [In, hpq, hp, eq_comm]
      · simp [In, hr]

end Held

end Cells

end Demiplane.Custody

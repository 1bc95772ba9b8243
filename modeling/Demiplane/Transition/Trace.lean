import Demiplane.Transition.Run

/-!
Statements about the past. A property such as "nothing is returned before it
was claimed" speaks of every event of a trace together with the events before
it. `Justified` is that shape once and for all; it is kept by appending events
exactly when each new event is justified by the trace up to it.
-/

namespace Demiplane.Transition

variable {ε : Type*} {Q : List ε → ε → Prop}

theorem split_singleton {us₁ us₂ : List ε} {d e : ε} (h : [d] = us₁ ++ e :: us₂) :
    us₁ = [] ∧ e = d := by
  cases us₁ with
  | nil => exact ⟨rfl, (List.cons.inj h).1.symm⟩
  | cons _ us₁ => simp at h

/-- Every event of the trace is related by `Q` to what came before it. -/
def Justified (Q : List ε → ε → Prop) (tr : List ε) : Prop :=
  ∀ pre e post, tr = pre ++ e :: post → Q pre e

theorem justified_nil : Justified Q [] := by
  intro pre e post h
  simp at h

theorem Justified.append {tr us : List ε} (h : Justified Q tr)
    (hus : ∀ us₁ e us₂, us = us₁ ++ e :: us₂ → Q (tr ++ us₁) e) : Justified Q (tr ++ us) := by
  intro pre e post hsplit
  rcases split_of_append hsplit with ⟨mid, htr⟩ | ⟨us₁, us₂, hus', rfl⟩
  · exact h pre e mid htr
  · exact hus us₁ e us₂ hus'

end Demiplane.Transition

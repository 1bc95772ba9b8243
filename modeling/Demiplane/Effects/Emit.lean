import Mathlib.Data.List.Basic

/-!
Programs that emit events and then return a value or throw. What such a program does is the list
of its events together with its result; the rules here say so for each way to put programs
together.
-/

namespace Demiplane.Effects

variable {Ev T α β : Type}

/-- The events of a program, in their order, and its result. -/
structure Emit (Ev T α : Type) where
  events : List Ev
  result : Except T α

namespace Emit

instance : Monad (Emit Ev T) where
  pure a := ⟨[], .ok a⟩
  bind m f :=
    match m.result with
    | .ok a => ⟨m.events ++ (f a).events, (f a).result⟩
    | .error t => ⟨m.events, .error t⟩

def emit (e : Ev) : Emit Ev T Unit := ⟨[e], .ok ()⟩

/-- The result of a call that emits nothing itself. -/
def outcome (r : Except T α) : Emit Ev T α := ⟨[], r⟩

def catching (m : Emit Ev T α) (f : T → Emit Ev T α) : Emit Ev T α :=
  match m.result with
  | .ok _ => m
  | .error t => ⟨m.events ++ (f t).events, (f t).result⟩

/-- A loop over a list. -/
def forEach : List α → (α → Emit Ev T Unit) → Emit Ev T Unit
  | [], _ => pure ()
  | a :: as, f => do
      f a
      forEach as f

/-! ### What a program does -/

theorem pure_eq (a : α) : (pure a : Emit Ev T α) = ⟨[], .ok a⟩ := rfl

@[simp] theorem bind_ok (es : List Ev) (a : α) (f : α → Emit Ev T β) :
    (⟨es, .ok a⟩ : Emit Ev T α) >>= f = ⟨es ++ (f a).events, (f a).result⟩ := rfl

@[simp] theorem bind_error (es : List Ev) (t : T) (f : α → Emit Ev T β) :
    (⟨es, .error t⟩ : Emit Ev T α) >>= f = ⟨es, .error t⟩ := rfl

@[simp] theorem catching_ok (es : List Ev) (a : α) (f : T → Emit Ev T α) :
    catching ⟨es, .ok a⟩ f = ⟨es, .ok a⟩ := rfl

@[simp] theorem catching_error (es : List Ev) (t : T) (f : T → Emit Ev T α) :
    catching ⟨es, .error t⟩ f = ⟨es ++ (f t).events, (f t).result⟩ := rfl

/-- A loop whose steps all return does them one after the other. -/
theorem forEach_eq {as : List α} {f : α → Emit Ev T Unit} {g : α → List Ev}
    (h : ∀ a ∈ as, f a = ⟨g a, .ok ()⟩) : forEach as f = ⟨as.flatMap g, .ok ()⟩ := by
  induction as with
  | nil => rfl
  | cons a as ih =>
    obtain ⟨ha, has⟩ := List.forall_mem_cons.mp h
    rw [forEach, ha, bind_ok, ih has, List.flatMap_cons]

theorem forEach_emit (as : List α) (g : α → Ev) :
    forEach as (fun a => (emit (g a) : Emit Ev T Unit)) = ⟨as.map g, .ok ()⟩ := by
  have hemit : ∀ a ∈ as, (emit (g a) : Emit Ev T Unit) = ⟨[g a], .ok ()⟩ := fun _ _ => rfl
  rw [forEach_eq hemit, ← List.map_eq_flatMap]

end Emit

end Demiplane.Effects

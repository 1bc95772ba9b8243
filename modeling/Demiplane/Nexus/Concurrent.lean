import Mathlib.Logic.Function.Basic
import Demiplane.Nexus.Registry
import Demiplane.Transition.Run

/-!
Any number of threads that call `get` on one key, with registrations of the key and sweeps
in between. A step is a section that holds the registry's mutex, a call of the factory, or
the locking or unlocking of the construction mutex.
-/

namespace Demiplane.Nexus

open Transition

/-- An instance, with the number of the registration that it comes from. -/
structure Instance where
  origin : ℕ
  serial : ℕ
  deriving DecidableEq, Repr

/-- Where a call of `get` is. A call that ends keeps whether its result is what its own call
of the factory returned. -/
inductive Call where
  | idle
  | fast
  | read
  | lock (factoryCopy : Option ℕ)
  | check (factoryCopy : Option ℕ)
  | factory (factoryCopy : Option ℕ)
  | store (newObj : Option Instance)
  | unlock (own : Bool) (result : Except NexusError (Option Instance))
  | done (own : Bool) (result : Except NexusError (Option Instance))
  deriving DecidableEq

/-- The call ends with the instance, or has ended with it. -/
def Call.Yields (o : Instance) : Call → Prop
  | .unlock _ result => result = .ok (some o)
  | .done _ result => result = .ok (some o)
  | _ => False

/-- What the factory has returned to a call that has not stored it. -/
def Call.newObj : Call → Option Instance
  | .store obj => obj
  | _ => none

/-- The slot of the key and the calls of the threads. The other fields are not part of the
program: how many registrations there were, how many there were when a call began, and what
the calls of factories have returned. Factories are known by the number of their
registration. -/
structure World (τ : Type*) where
  slot : Option (Slot ℕ Instance τ)
  calls : τ → Call
  registrations : ℕ
  since : τ → ℕ
  built : List (Option Instance)

/-- The steps of a call of `get`. -/
inductive Section where
  | begin
  | fastPath (now : ℤ)
  | readFactory
  | lock
  | doubleCheck (now : ℤ)
  | callFactory (outcome : Outcome Instance)
  | store (now : ℤ)
  | unlock
  deriving DecidableEq, Repr

inductive Action (τ : Type*) where
  | get (t : τ) (a : Section)
  | registerFactory (lt : Lifetime)
  | registerObject (serial : Option ℕ) (lt : Lifetime) (now : ℤ)
  | sweep (now : ℤ) (useCount : Instance → ℕ)

/-- The action is no registration. -/
def Action.KeepsRegistration {τ : Type*} : Action τ → Prop
  | registerFactory _ => False
  | registerObject _ _ _ => False
  | _ => True

/-- What a factory returns comes from its registration. -/
def Outcome.ComesFrom (factoryCopy : Option ℕ) : Outcome Instance → Prop
  | .returns (some o) => factoryCopy = some o.origin
  | _ => True

instance (factoryCopy : Option ℕ) (outcome : Outcome Instance) :
    Decidable (outcome.ComesFrom factoryCopy) :=
  match outcome with
  | .returns (some o) => inferInstanceAs (Decidable (factoryCopy = some o.origin))
  | .returns none => isTrue trivial
  | .throws => isTrue trivial

namespace World

variable {τ : Type*} [DecidableEq τ]

def goto (s : World τ) (t : τ) (call : Call) : World τ :=
  { s with calls := Function.update s.calls t call }

/-- The steps of a call of `get`. The construction mutex is the slot's own: nothing is said
here of a call that has lost its slot while it waits for the mutex or holds it. -/
@[simp]
def getStep (s : World τ) (t : τ) : Call → Section → Option (World τ)
  | .idle, .begin | .done _ _, .begin =>
      some { s.goto t .fast with since := Function.update s.since t s.registrations }
  | .fast, .fastPath now =>
      match Nexus.fastPath now s.slot with
      | .error e => some (s.goto t (.done false (.error e)))
      | .ok (some (o, slot)) =>
          some ({ s with slot := some slot }.goto t (.done false (.ok (some o))))
      | .ok none => some (s.goto t .read)
  | .read, .readFactory =>
      match Nexus.readFactory s.slot with
      | .error e => some (s.goto t (.done false (.error e)))
      | .ok factoryCopy => some (s.goto t (.lock factoryCopy))
  -- whatever happens to the registration from here on, this copy of its factory is called
  | .lock factoryCopy, .lock =>
      match s.slot with
      | none => none
      | some slot =>
          if slot.constructionMutex = none then
            some ({ s with slot := some { slot with constructionMutex := some t } }.goto t
              (.check factoryCopy))
          else none
  | .check factoryCopy, .doubleCheck now =>
      match Nexus.doubleCheck now s.slot with
      | some (o, slot) =>
          some ({ s with slot := some slot }.goto t (.unlock false (.ok (some o))))
      | none => some (s.goto t (.factory factoryCopy))
  | .factory factoryCopy, .callFactory outcome =>
      if outcome.ComesFrom factoryCopy then
        match Nexus.callFactory factoryCopy outcome with
        | .error e => some (s.goto t (.unlock false (.error e)))
        | .ok obj => some ({ s with built := s.built ++ [obj] }.goto t (.store obj))
      else none
  | .store obj, .store now =>
      match Nexus.storeObject now obj s.slot with
      | .error e => some (s.goto t (.unlock true (.error e)))
      | .ok slot => some ({ s with slot := some slot }.goto t (.unlock true (.ok obj)))
  | .unlock own result, .unlock =>
      match s.slot with
      | none => none
      | some slot =>
          some ({ s with slot := some { slot with constructionMutex := none } }.goto t
            (.done own result))
  | _, _ => none

def step (s : World τ) : Action τ → Option (World τ)
  | .get t a => s.getStep t (s.calls t) a
  | .registerFactory lt =>
      some { s with
        slot := some (Nexus.registerFactory s.registrations lt s.slot)
        registrations := s.registrations + 1 }
  | .registerObject serial lt now =>
      some { s with
        slot := some (Nexus.registerObject (serial.map (⟨s.registrations, ·⟩)) lt now s.slot)
        registrations := s.registrations + 1 }
  | .sweep now useCount => some { s with slot := s.slot.bind (Slot.sweep now useCount) }

/-! ### What a step does -/

/-- What a step of a call can do. -/
inductive Moves (s : World τ) (t : τ) : Section → World τ → Prop
  | began : s.calls t = .idle ∨ (∃ own result, s.calls t = .done own result) →
      Moves s t .begin
        { s.goto t .fast with since := Function.update s.since t s.registrations }
  | refused (now : ℤ) : s.calls t = .fast → s.slot = none →
      Moves s t (.fastPath now) (s.goto t (.done false (.error .notRegistered)))
  | found (now : ℤ) (slot : Slot ℕ Instance τ) (o : Instance) :
      s.calls t = .fast → s.slot = some slot → slot.ready = some o →
      Moves s t (.fastPath now)
        ({ s with slot := some (slot.buildHandle now) }.goto t (.done false (.ok (some o))))
  | missed (now : ℤ) (slot : Slot ℕ Instance τ) :
      s.calls t = .fast → s.slot = some slot → slot.ready = none →
      Moves s t (.fastPath now) (s.goto t .read)
  | lost : s.calls t = .read → s.slot = none →
      Moves s t .readFactory (s.goto t (.done false (.error .notRegistered)))
  | copied (slot : Slot ℕ Instance τ) : s.calls t = .read → s.slot = some slot →
      Moves s t .readFactory (s.goto t (.lock slot.factory))
  | locked (f : Option ℕ) (slot : Slot ℕ Instance τ) :
      s.calls t = .lock f → s.slot = some slot → slot.constructionMutex = none →
      Moves s t .lock ({ s with slot := some { slot with constructionMutex := some t } }.goto t
        (.check f))
  | foundBehind (now : ℤ) (f : Option ℕ) (slot : Slot ℕ Instance τ) (o : Instance) :
      s.calls t = .check f → s.slot = some slot → slot.ready = some o →
      Moves s t (.doubleCheck now)
        ({ s with slot := some (slot.buildHandle now) }.goto t (.unlock false (.ok (some o))))
  | missedBehind (now : ℤ) (f : Option ℕ) :
      s.calls t = .check f → (∀ slot ∈ s.slot, slot.ready = none) →
      Moves s t (.doubleCheck now) (s.goto t (.factory f))
  | failed (outcome : Outcome Instance) (f : Option ℕ) (e : NexusError) :
      s.calls t = .factory f →
      Moves s t (.callFactory outcome) (s.goto t (.unlock false (.error e)))
  | returned (f : ℕ) (obj : Option Instance) :
      s.calls t = .factory (some f) → (∀ o ∈ obj, o.origin = f) →
      Moves s t (.callFactory (.returns obj))
        ({ s with built := s.built ++ [obj] }.goto t (.store obj))
  | dropped (now : ℤ) (obj : Option Instance) : s.calls t = .store obj → s.slot = none →
      Moves s t (.store now) (s.goto t (.unlock true (.error .removedDuringConstruction)))
  | stored (now : ℤ) (obj : Option Instance) (slot : Slot ℕ Instance τ) :
      s.calls t = .store obj → s.slot = some slot →
      Moves s t (.store now)
        ({ s with slot := some ((slot.store now obj).buildHandle now) }.goto t
          (.unlock true (.ok obj)))
  | unlocked (own : Bool) (result : Except NexusError (Option Instance))
      (slot : Slot ℕ Instance τ) :
      s.calls t = .unlock own result → s.slot = some slot →
      Moves s t .unlock ({ s with slot := some { slot with constructionMutex := none } }.goto t
        (.done own result))

section MovesOfStep

variable {s s' : World τ} {t : τ}

theorem moves_of_fastPath {now : ℤ} (hcall : s.calls t = .fast)
    (h : s.getStep t .fast (.fastPath now) = some s') : s.Moves t (.fastPath now) s' := by
  cases hslot : s.slot with
  | none =>
    simp only [getStep, hslot, Nexus.fastPath] at h
    obtain rfl := Option.some.inj h
    exact .refused now hcall hslot
  | some slot =>
    cases hready : slot.ready with
    | none =>
      simp only [getStep, hslot, Nexus.fastPath, hready, Option.map_none] at h
      obtain rfl := Option.some.inj h
      exact .missed now slot hcall hslot hready
    | some o =>
      simp only [getStep, hslot, Nexus.fastPath, hready, Option.map_some] at h
      obtain rfl := Option.some.inj h
      exact .found now slot o hcall hslot hready

theorem moves_of_readFactory (hcall : s.calls t = .read)
    (h : s.getStep t .read .readFactory = some s') : s.Moves t .readFactory s' := by
  cases hslot : s.slot with
  | none =>
    simp only [getStep, hslot, Nexus.readFactory] at h
    obtain rfl := Option.some.inj h
    exact .lost hcall hslot
  | some slot =>
    simp only [getStep, hslot, Nexus.readFactory] at h
    obtain rfl := Option.some.inj h
    exact .copied slot hcall hslot

theorem moves_of_lock {f : Option ℕ} (hcall : s.calls t = .lock f)
    (h : s.getStep t (.lock f) .lock = some s') : s.Moves t .lock s' := by
  cases hslot : s.slot with
  | none => simp [getStep, hslot] at h
  | some slot =>
    simp only [getStep, hslot] at h
    split_ifs at h with hfree
    obtain rfl := Option.some.inj h
    exact .locked f slot hcall hslot hfree

theorem moves_of_doubleCheck {f : Option ℕ} {now : ℤ} (hcall : s.calls t = .check f)
    (h : s.getStep t (.check f) (.doubleCheck now) = some s') :
    s.Moves t (.doubleCheck now) s' := by
  cases hcheck : Nexus.doubleCheck now s.slot with
  | none =>
    simp only [getStep, hcheck] at h
    obtain rfl := Option.some.inj h
    refine .missedBehind now f hcall fun slot hslot => ?_
    rw [Option.mem_def.mp hslot] at hcheck
    simpa [Nexus.doubleCheck] using hcheck
  | some found =>
    simp only [getStep, hcheck] at h
    obtain rfl := Option.some.inj h
    obtain ⟨slot, hslot, hfound⟩ := Option.bind_eq_some_iff.mp hcheck
    obtain ⟨o, hready, rfl⟩ := Option.map_eq_some_iff.mp hfound
    exact .foundBehind now f slot o hcall hslot hready

theorem moves_of_callFactory {f : Option ℕ} {outcome : Outcome Instance}
    (hcall : s.calls t = .factory f)
    (h : s.getStep t (.factory f) (.callFactory outcome) = some s') :
    s.Moves t (.callFactory outcome) s' := by
  simp only [getStep] at h
  split_ifs at h with hfrom
  cases hresult : Nexus.callFactory f outcome with
  | error e =>
    simp only [hresult] at h
    obtain rfl := Option.some.inj h
    exact .failed outcome f e hcall
  | ok obj =>
    simp only [hresult] at h
    obtain rfl := Option.some.inj h
    obtain ⟨f, rfl, rfl⟩ := callFactory_eq_ok hresult
    refine .returned f obj hcall fun o ho => ?_
    rw [Option.mem_def.mp ho] at hfrom
    exact (Option.some.inj hfrom).symm

theorem moves_of_store {obj : Option Instance} {now : ℤ} (hcall : s.calls t = .store obj)
    (h : s.getStep t (.store obj) (.store now) = some s') : s.Moves t (.store now) s' := by
  cases hslot : s.slot with
  | none =>
    simp only [getStep, hslot, Nexus.storeObject] at h
    obtain rfl := Option.some.inj h
    exact .dropped now obj hcall hslot
  | some slot =>
    simp only [getStep, hslot, Nexus.storeObject] at h
    obtain rfl := Option.some.inj h
    exact .stored now obj slot hcall hslot

theorem moves_of_unlock {own : Bool} {result : Except NexusError (Option Instance)}
    (hcall : s.calls t = .unlock own result)
    (h : s.getStep t (.unlock own result) .unlock = some s') : s.Moves t .unlock s' := by
  cases hslot : s.slot with
  | none => simp [getStep, hslot] at h
  | some slot =>
    simp only [getStep, hslot] at h
    obtain rfl := Option.some.inj h
    exact .unlocked own result slot hcall hslot

theorem moves_of_getStep {a : Section} (h : s.getStep t (s.calls t) a = some s') :
    s.Moves t a s' := by
  generalize hcall : s.calls t = call at h
  -- in every other place the section does not come next
  cases a with
  | begin =>
    cases call with
    | idle =>
      obtain rfl := Option.some.inj h
      exact .began (.inl hcall)
    | done own result =>
      obtain rfl := Option.some.inj h
      exact .began (.inr ⟨own, result, hcall⟩)
    | _ => cases h
  | fastPath now =>
    cases call with
    | fast => exact moves_of_fastPath hcall h
    | _ => cases h
  | readFactory =>
    cases call with
    | read => exact moves_of_readFactory hcall h
    | _ => cases h
  | lock =>
    cases call with
    | lock f => exact moves_of_lock hcall h
    | _ => cases h
  | doubleCheck now =>
    cases call with
    | check f => exact moves_of_doubleCheck hcall h
    | _ => cases h
  | callFactory outcome =>
    cases call with
    | factory f => exact moves_of_callFactory hcall h
    | _ => cases h
  | store now =>
    cases call with
    | store obj => exact moves_of_store hcall h
    | _ => cases h
  | unlock =>
    cases call with
    | unlock own result => exact moves_of_unlock hcall h
    | _ => cases h

end MovesOfStep

theorem calls_goto (s : World τ) (t t' : τ) (call : Call) :
    (s.goto t call).calls t' = if t' = t then call else s.calls t' :=
  Function.update_apply _ _ _ _

/-- The object in the slot. -/
def object (s : World τ) : Option Instance := s.slot.bind Slot.obj

/-- What a step of a call does to the object in the slot. -/
theorem Moves.object {s s' : World τ} {t : τ} {a : Section} (h : s.Moves t a s') :
    s'.object = s.object ∨
      ∃ now obj, a = .store now ∧ s.calls t = .store obj ∧ s.slot.isSome ∧ s'.object = obj := by
  cases h with
  | stored now obj slot hcall hslot =>
    refine .inr ⟨now, obj, rfl, hcall, by simp [hslot], ?_⟩
    simp [World.object, goto, Slot.store]
  | found now slot o hcall hslot hready => exact .inl (by simp [World.object, goto, hslot])
  | foundBehind now f slot o hcall hslot hready =>
    exact .inl (by simp [World.object, goto, hslot])
  | locked f slot hcall hslot hfree => exact .inl (by simp [World.object, goto, hslot])
  | unlocked own result slot hcall hslot => exact .inl (by simp [World.object, goto, hslot])
  | _ => exact .inl rfl

theorem Moves.registrations {s s' : World τ} {t : τ} {a : Section} (h : s.Moves t a s') :
    s'.registrations = s.registrations := by
  cases h <;> rfl

theorem Moves.frame {s s' : World τ} {t : τ} {a : Section} (h : s.Moves t a s') {t' : τ}
    (hne : t' ≠ t) : s'.calls t' = s.calls t' ∧ s'.since t' = s.since t' := by
  cases h <;> simp [goto, Function.update_of_ne hne]

/-- An instance that a call yields was in the slot, or the call has got it from the factory
and stored it. -/
theorem Moves.yields {s s' : World τ} {t : τ} {a : Section} (h : s.Moves t a s')
    {o : Instance} (hyields : (s'.calls t).Yields o) :
    s'.since t = s.since t ∧ ((s.calls t).Yields o ∨ s.object = some o ∨
      ∃ now, a = .store now ∧ s.slot.isSome ∧ s.calls t = .store (some o)) := by
  cases h with
  | began hcall => simp [goto, Call.Yields] at hyields
  | refused now hcall hslot => simp [goto, Call.Yields] at hyields
  | found now slot o' hcall hslot hready =>
    obtain rfl : o' = o := by simpa [goto, Call.Yields] using hyields
    exact ⟨rfl, .inr (.inl (by simp [World.object, hslot, Slot.obj_of_ready hready]))⟩
  | missed now slot hcall hslot hready => simp [goto, Call.Yields] at hyields
  | lost hcall hslot => simp [goto, Call.Yields] at hyields
  | copied slot hcall hslot => simp [goto, Call.Yields] at hyields
  | locked f slot hcall hslot hfree => simp [goto, Call.Yields] at hyields
  | foundBehind now f slot o' hcall hslot hready =>
    obtain rfl : o' = o := by simpa [goto, Call.Yields] using hyields
    exact ⟨rfl, .inr (.inl (by simp [World.object, hslot, Slot.obj_of_ready hready]))⟩
  | missedBehind now f hcall hready => simp [goto, Call.Yields] at hyields
  | failed outcome f e hcall => simp [goto, Call.Yields] at hyields
  | returned f obj hcall horigin => simp [goto, Call.Yields] at hyields
  | dropped now obj hcall hslot => simp [goto, Call.Yields] at hyields
  | stored now obj slot hcall hslot =>
    obtain rfl : obj = some o := by simpa [goto, Call.Yields] using hyields
    exact ⟨rfl, .inr (.inr ⟨now, rfl, by simp [hslot], hcall⟩)⟩
  | unlocked own result slot hcall hslot =>
    obtain rfl : result = .ok (some o) := by simpa [goto, Call.Yields] using hyields
    exact ⟨rfl, .inl (by rw [hcall]; rfl)⟩

/-! ### A call alone -/

/-- The thread can get to the slot and the place by its own steps. -/
def Alone (s : World τ) (t : τ) (slot : Option (Slot ℕ Instance τ)) (call : Call) : Prop :=
  ∃ (sections : List Section) (s' : World τ),
    run step s (sections.map (.get t)) = some s' ∧ s'.slot = slot ∧ s'.calls t = call

theorem Alone.done {s : World τ} {t : τ} {slot : Option (Slot ℕ Instance τ)} {call : Call}
    (hslot : s.slot = slot) (hcall : s.calls t = call) : s.Alone t slot call :=
  ⟨[], s, rfl, hslot, hcall⟩

theorem Alone.next {s : World τ} {t : τ} {slot : Option (Slot ℕ Instance τ)} {call : Call}
    (a : Section) (slot' : Option (Slot ℕ Instance τ)) (call' : Call) {s' : World τ}
    (h : s.getStep t (s.calls t) a = some s') (hslot : s'.slot = slot')
    (hcall : s'.calls t = call')
    (hnext : ∀ u : World τ, u.slot = slot' → u.calls t = call' → u.Alone t slot call) :
    s.Alone t slot call := by
  obtain ⟨sections, u, hrun, hend⟩ := hnext s' hslot hcall
  refine ⟨a :: sections, u, ?_, hend⟩
  rw [List.map_cons, run]
  exact Option.bind_eq_some_iff.mpr ⟨s', h, hrun⟩

/-- The call finds no object and gets as far as the factory. -/
theorem Alone.toFactory {s : World τ} {t : τ} (ht : s.calls t = .idle)
    {slot : Slot ℕ Instance τ} (hslot : s.slot = some slot)
    (hfree : slot.constructionMutex = none) (hready : slot.ready = none) (now : ℤ)
    {slot' : Option (Slot ℕ Instance τ)} {call : Call}
    (hnext : ∀ u : World τ, u.slot = some { slot with constructionMutex := some t } →
      u.calls t = .factory slot.factory → u.Alone t slot' call) : s.Alone t slot' call := by
  apply Alone.next .begin (some slot) .fast
  · rw [ht]
    rfl
  · exact hslot
  · exact Function.update_self ..
  intro s₁ hslot₁ ht₁
  apply Alone.next (.fastPath now) (some slot) .read
  · rw [ht₁, getStep, hslot₁, Nexus.fastPath, hready]
    rfl
  · exact hslot₁
  · exact Function.update_self ..
  intro s₂ hslot₂ ht₂
  apply Alone.next .readFactory (some slot) (.lock slot.factory)
  · rw [ht₂, getStep, hslot₂]
    rfl
  · exact hslot₂
  · exact Function.update_self ..
  intro s₃ hslot₃ ht₃
  apply Alone.next .lock (some { slot with constructionMutex := some t }) (.check slot.factory)
  · rw [ht₃, getStep, hslot₃]
    exact if_pos hfree
  · rfl
  · exact Function.update_self ..
  intro s₄ hslot₄ ht₄
  apply Alone.next (.doubleCheck now) (some { slot with constructionMutex := some t })
    (.factory slot.factory)
  · have hready₄ : Slot.ready { slot with constructionMutex := some t } = none := hready
    rw [ht₄, getStep, hslot₄, Nexus.doubleCheck, Option.bind_some, hready₄]
    rfl
  · exact hslot₄
  · exact Function.update_self ..
  exact hnext

/-- The call gives the mutex back and ends. -/
theorem Alone.leave {s : World τ} {t : τ} {own : Bool}
    {result : Except NexusError (Option Instance)} {slot : Slot ℕ Instance τ}
    (hslot : s.slot = some slot) (ht : s.calls t = .unlock own result) :
    s.Alone t (some { slot with constructionMutex := none }) (.done own result) := by
  apply Alone.next .unlock (some { slot with constructionMutex := none }) (.done own result)
  · rw [ht, getStep, hslot]
  · rfl
  · exact Function.update_self ..
  exact fun s₁ hslot₁ ht₁ => .done hslot₁ ht₁

omit [DecidableEq τ] in
/-- The mutex does not matter for what is stored. -/
theorem unlock_store {slot : Slot ℕ Instance τ} (hfree : slot.constructionMutex = none) {t : τ}
    {now : ℤ} {obj : Option Instance} :
    { (Slot.store now obj { slot with constructionMutex := some t }).buildHandle now with
      constructionMutex := none } = (slot.store now obj).buildHandle now := by
  obtain ⟨obj', factory, lt, lastTouch, expiredFlag, constructionMutex⟩ := slot
  obtain rfl : constructionMutex = none := hfree
  cases lt <;> rfl

/-- A call of `get` that nobody interferes with does what `get` says. -/
theorem run_get {s : World τ} {t : τ} (ht : s.calls t = .idle) {slot : Slot ℕ Instance τ}
    (hslot : s.slot = some slot) (hfree : slot.constructionMutex = none) (now : ℤ)
    {outcome : Outcome Instance} (hfrom : outcome.ComesFrom slot.factory) :
    ∃ own, s.Alone t (Nexus.get now outcome s.slot).slot
      (.done own (Nexus.get now outcome s.slot).result) := by
  rw [hslot]
  cases hready : slot.ready with
  | some o =>
    rw [get_ready hready]
    refine ⟨false, ?_⟩
    apply Alone.next .begin (some slot) .fast
    · rw [ht]
      rfl
    · exact hslot
    · exact Function.update_self ..
    intro s₁ hslot₁ ht₁
    apply Alone.next (.fastPath now) (some (slot.buildHandle now)) (.done false (.ok (some o)))
    · rw [ht₁, getStep, hslot₁, Nexus.fastPath, hready]
      rfl
    · rfl
    · exact Function.update_self ..
    exact fun s₂ hslot₂ ht₂ => .done hslot₂ ht₂
  | none =>
    cases hresult : Nexus.callFactory slot.factory outcome with
    | error e =>
      rw [get_error hready hresult]
      refine ⟨false, .toFactory ht hslot hfree hready now fun s₁ hslot₁ ht₁ => ?_⟩
      apply Alone.next (.callFactory outcome) (some { slot with constructionMutex := some t })
        (.unlock false (.error e))
      · rw [ht₁, getStep, if_pos hfrom, hresult]
      · exact hslot₁
      · exact Function.update_self ..
      intro s₂ hslot₂ ht₂
      have hleave := Alone.leave hslot₂ ht₂
      rwa [← hfree] at hleave
    | ok obj =>
      obtain ⟨f, hf, rfl⟩ := callFactory_eq_ok hresult
      rw [get_constructs hready hf]
      refine ⟨true, .toFactory ht hslot hfree hready now fun s₁ hslot₁ ht₁ => ?_⟩
      apply Alone.next (.callFactory (.returns obj))
        (some { slot with constructionMutex := some t }) (.store obj)
      · rw [ht₁, getStep, if_pos hfrom, hresult]
      · exact hslot₁
      · exact Function.update_self ..
      intro s₂ hslot₂ ht₂
      apply Alone.next (.store now)
        (some ((Slot.store now obj { slot with constructionMutex := some t }).buildHandle now))
        (.unlock true (.ok obj))
      · rw [ht₂, getStep, hslot₂]
        rfl
      · rfl
      · exact Function.update_self ..
      intro s₃ hslot₃ ht₃
      have hleave := Alone.leave hslot₃ ht₃
      rwa [unlock_store hfree] at hleave

/-- A call that finds no object, up to the call of the factory. -/
def untilFactory (t : ℕ) : List (Action ℕ) :=
  [.get t .begin, .get t (.fastPath 1), .get t .readFactory, .get t .lock,
    .get t (.doubleCheck 2)]

/-- The rest of the call, if the factory returns. -/
def fromFactory (t : ℕ) (obj : Option Instance) : List (Action ℕ) :=
  [.get t (.callFactory (.returns obj)), .get t (.store 3), .get t .unlock]

end World

end Demiplane.Nexus

import Mathlib.Logic.Function.Basic
import Demiplane.Nexus.Registry
import Demiplane.Transition.Run

/-!
Factories that call `get` themselves. A factory runs while its thread holds the construction
mutex of its own service and no other lock of the registry, and it may get the services that it
depends on; so a thread has a stack of calls, each inside of the factory of the next one, and
holds a construction mutex for each of them. Here are all keys of the registry and any number
of threads.

Nothing takes a slot away: there is no `reset` and no `clear`, and a sweep that erases one is
ruled out where a run is spoken of.
-/

namespace Demiplane.Nexus.Nested

open Transition

/-- What a factory does: it gets services, one after another, and goes on with what it has got
or with the exception that it has caught; in the end it returns an object or throws. -/
inductive Script (κ ι : Type*) where
  | get (key : κ) (next : Except NexusError (Option ι) → Script κ ι)
  | returns (obj : Option ι)
  | throws

/-- Every `get` of the script is on a key that satisfies `P`. -/
def Script.Gets {κ ι : Type*} (P : κ → Prop) : Script κ ι → Prop
  | .get key next => P key ∧ ∀ result, (next result).Gets P
  | .returns _ => True
  | .throws => True

/-- Where a call of `get` is. -/
inductive Stage (φ κ ι : Type*) where
  | fast
  | read
  | lock (factoryCopy : Option φ)
  | check (factoryCopy : Option φ)
  | factory (script : Script κ ι)
  | store (newObj : Option ι)
  | unlock (result : Except NexusError (Option ι))

/-- A call whose factory waits for a service. -/
structure Suspended (κ ι : Type*) where
  key : κ
  next : Except NexusError (Option ι) → Script κ ι

/-- The innermost call of a thread, with the calls whose factories it is inside of. -/
structure Call (φ κ ι : Type*) where
  key : κ
  stage : Stage φ κ ι
  callers : List (Suspended κ ι)

structure World (φ κ ι τ : Type*) where
  slots : κ → Option (Slot φ ι τ)
  calls : τ → Option (Call φ κ ι)

/-- `advance` lets a thread take its next step, at the time `now`; `script` is what the factory
will do, in case the step calls one. -/
inductive Action (φ κ ι τ : Type*) where
  | begin (t : τ) (key : κ)
  | advance (t : τ) (now : ℤ) (script : Script κ ι)
  | registerFactory (key : κ) (f : φ) (lt : Lifetime)
  | registerObject (key : κ) (sp : Option ι) (lt : Lifetime) (now : ℤ)
  | sweep (now : ℤ) (useCount : ι → ℕ)

variable {φ κ ι τ : Type*}

def Action.isBegin : Action φ κ ι τ → Bool
  | .begin _ _ => true
  | _ => false

def Action.isAdvance : Action φ κ ι τ → Bool
  | .advance _ _ _ => true
  | _ => false

/-- A call has come to `result`, which its caller's factory goes on with. -/
def resume (result : Except NexusError (Option ι)) :
    List (Suspended κ ι) → Option (Call φ κ ι)
  | [] => none
  | caller :: callers => some ⟨caller.key, .factory (caller.next result), callers⟩

namespace World

def setCall [DecidableEq τ] (s : World φ κ ι τ) (t : τ) (call : Option (Call φ κ ι)) :
    World φ κ ι τ :=
  { s with calls := Function.update s.calls t call }

def setSlot [DecidableEq κ] (s : World φ κ ι τ) (k : κ) (slot : Slot φ ι τ) : World φ κ ι τ :=
  { s with slots := Function.update s.slots k (some slot) }

/-! ### Construction mutexes -/

/-- The thread that has locked the construction mutex of a key. -/
def owner (s : World φ κ ι τ) (k : κ) : Option τ :=
  (s.slots k).bind (·.constructionMutex)

end World

/-- The call has locked the construction mutex of its key. -/
def Stage.locked : Stage φ κ ι → Bool
  | .fast | .read | .lock _ => false
  | .check _ | .factory _ | .store _ | .unlock _ => true

/-- The keys whose construction mutexes the thread has locked. -/
def Call.held (call : Call φ κ ι) : List κ :=
  (if call.stage.locked then [call.key] else []) ++ call.callers.map (·.key)

theorem held_resume (result : Except NexusError (Option ι)) (callers : List (Suspended κ ι)) :
    (resume result callers : Option (Call φ κ ι)).elim [] Call.held = callers.map (·.key) := by
  cases callers <;> rfl

namespace World

def held (s : World φ κ ι τ) (t : τ) : List κ := (s.calls t).elim [] Call.held

theorem held_setCall [DecidableEq τ] (s : World φ κ ι τ) (t : τ) (call : Option (Call φ κ ι)) :
    (s.setCall t call).held = Function.update s.held t (call.elim [] Call.held) := by
  funext u
  by_cases hu : u = t
  · subst hu
    simp [held, setCall]
  · simp [held, setCall, hu]

theorem owner_setSlot [DecidableEq κ] (s : World φ κ ι τ) (k : κ) (slot : Slot φ ι τ) :
    (s.setSlot k slot).owner = Function.update s.owner k slot.constructionMutex := by
  funext l
  by_cases hl : l = k
  · subst hl
    simp [owner, setSlot]
  · simp [owner, setSlot, hl]

theorem owner_of_slot {s : World φ κ ι τ} {k : κ} {slot : Slot φ ι τ} (h : s.slots k = some slot) :
    s.owner k = slot.constructionMutex := by
  simp [owner, h]

theorem owner_setSlot_self [DecidableEq κ] {s : World φ κ ι τ} {k : κ} {slot slot' : Slot φ ι τ}
    (hs : s.slots k = some slot) (hm : slot'.constructionMutex = slot.constructionMutex) :
    (s.setSlot k slot').owner = s.owner := by
  rw [owner_setSlot, hm, ← owner_of_slot hs, Function.update_eq_self]

theorem sweep_constructionMutex {slot slot' : Slot φ ι τ} {now : ℤ} {useCount : ι → ℕ}
    (h : slot.sweep now useCount = some slot') :
    slot'.constructionMutex = slot.constructionMutex := by
  rcases slot.sweep_cases now useCount with ⟨-, -, hs⟩ | ⟨-, hs⟩ | ⟨-, -, hs⟩
  · rw [hs] at h
    cases h
  all_goals
    rw [hs] at h
    exact Option.some.inj h ▸ rfl

/-! ### Steps -/

variable [DecidableEq κ] [DecidableEq τ]

/-- The next step of a call of `get`. -/
def advance (s : World φ κ ι τ) (t : τ) (now : ℤ) (script : Script κ ι) (k : κ)
    (callers : List (Suspended κ ι)) : Stage φ κ ι → Option (World φ κ ι τ)
  | .fast =>
      match Nexus.fastPath now (s.slots k) with
      | .error e => some (s.setCall t (resume (.error e) callers))
      | .ok (some (o, slot)) =>
          some ((s.setSlot k slot).setCall t (resume (.ok (some o)) callers))
      | .ok none => some (s.setCall t (some ⟨k, .read, callers⟩))
  | .read =>
      match Nexus.readFactory (s.slots k) with
      | .error e => some (s.setCall t (resume (.error e) callers))
      | .ok factoryCopy => some (s.setCall t (some ⟨k, .lock factoryCopy, callers⟩))
  | .lock factoryCopy =>
      match s.slots k with
      | none => none
      | some slot =>
          if slot.constructionMutex = none then
            some ((s.setSlot k { slot with constructionMutex := some t }).setCall t
              (some ⟨k, .check factoryCopy, callers⟩))
          else none
  | .check factoryCopy =>
      match Nexus.doubleCheck now (s.slots k) with
      | some (o, slot) =>
          some ((s.setSlot k slot).setCall t (some ⟨k, .unlock (.ok (some o)), callers⟩))
      | none =>
          match factoryCopy with
          | none => some (s.setCall t (some ⟨k, .unlock (.error .noFactory), callers⟩))
          | some _ => some (s.setCall t (some ⟨k, .factory script, callers⟩))
  -- no lock of the registry is held here but the construction mutexes
  | .factory (.get key next) => some (s.setCall t (some ⟨key, .fast, ⟨k, next⟩ :: callers⟩))
  | .factory (.returns obj) => some (s.setCall t (some ⟨k, .store obj, callers⟩))
  | .factory .throws => some (s.setCall t (some ⟨k, .unlock (.error .factoryThrew), callers⟩))
  | .store obj =>
      match Nexus.storeObject now obj (s.slots k) with
      | .error e => some (s.setCall t (some ⟨k, .unlock (.error e), callers⟩))
      | .ok slot => some ((s.setSlot k slot).setCall t (some ⟨k, .unlock (.ok obj), callers⟩))
  | .unlock result =>
      match s.slots k with
      | none => none
      | some slot =>
          some ((s.setSlot k { slot with constructionMutex := none }).setCall t
            (resume result callers))

def step (s : World φ κ ι τ) : Action φ κ ι τ → Option (World φ κ ι τ)
  | .begin t key =>
      match s.calls t with
      | none => some (s.setCall t (some ⟨key, .fast, []⟩))
      | some _ => none
  | .advance t now script =>
      match s.calls t with
      | none => none
      | some call => s.advance t now script call.key call.callers call.stage
  | .registerFactory key f lt => some (s.setSlot key (Nexus.registerFactory f lt (s.slots key)))
  | .registerObject key sp lt now =>
      some (s.setSlot key (Nexus.registerObject sp lt now (s.slots key)))
  | .sweep now useCount =>
      some { s with slots := fun k => (s.slots k).bind (Slot.sweep now useCount) }

/-! ### What a step does -/

/-- What a step of a call can do. -/
inductive Moves (s : World φ κ ι τ) (t : τ) (now : ℤ) (script : Script κ ι) :
    World φ κ ι τ → Prop
  | refused {k : κ} {callers : List (Suspended κ ι)}
      (hc : s.calls t = some ⟨k, .fast, callers⟩) (hs : s.slots k = none) :
      Moves s t now script (s.setCall t (resume (.error .notRegistered) callers))
  | found {k : κ} {callers : List (Suspended κ ι)} {slot : Slot φ ι τ} {o : ι}
      (hc : s.calls t = some ⟨k, .fast, callers⟩) (hs : s.slots k = some slot)
      (hr : slot.ready = some o) :
      Moves s t now script
        ((s.setSlot k (slot.buildHandle now)).setCall t (resume (.ok (some o)) callers))
  | missed {k : κ} {callers : List (Suspended κ ι)} {slot : Slot φ ι τ}
      (hc : s.calls t = some ⟨k, .fast, callers⟩) (hs : s.slots k = some slot)
      (hr : slot.ready = none) :
      Moves s t now script (s.setCall t (some ⟨k, .read, callers⟩))
  | lost {k : κ} {callers : List (Suspended κ ι)}
      (hc : s.calls t = some ⟨k, .read, callers⟩) (hs : s.slots k = none) :
      Moves s t now script (s.setCall t (resume (.error .notRegistered) callers))
  | copied {k : κ} {callers : List (Suspended κ ι)} {slot : Slot φ ι τ}
      (hc : s.calls t = some ⟨k, .read, callers⟩) (hs : s.slots k = some slot) :
      Moves s t now script (s.setCall t (some ⟨k, .lock slot.factory, callers⟩))
  | locked {k : κ} {callers : List (Suspended κ ι)} {slot : Slot φ ι τ} {f : Option φ}
      (hc : s.calls t = some ⟨k, .lock f, callers⟩) (hs : s.slots k = some slot)
      (hm : slot.constructionMutex = none) :
      Moves s t now script ((s.setSlot k { slot with constructionMutex := some t }).setCall t
        (some ⟨k, .check f, callers⟩))
  | foundBehind {k : κ} {callers : List (Suspended κ ι)} {slot : Slot φ ι τ} {f : Option φ} {o : ι}
      (hc : s.calls t = some ⟨k, .check f, callers⟩) (hs : s.slots k = some slot)
      (hr : slot.ready = some o) :
      Moves s t now script ((s.setSlot k (slot.buildHandle now)).setCall t
        (some ⟨k, .unlock (.ok (some o)), callers⟩))
  | noFactory {k : κ} {callers : List (Suspended κ ι)}
      (hc : s.calls t = some ⟨k, .check none, callers⟩)
      (hr : ∀ slot ∈ s.slots k, slot.ready = none) :
      Moves s t now script (s.setCall t (some ⟨k, .unlock (.error .noFactory), callers⟩))
  | called {k : κ} {callers : List (Suspended κ ι)} {f : φ}
      (hc : s.calls t = some ⟨k, .check (some f), callers⟩)
      (hr : ∀ slot ∈ s.slots k, slot.ready = none) :
      Moves s t now script (s.setCall t (some ⟨k, .factory script, callers⟩))
  | gets {k key : κ} {callers : List (Suspended κ ι)}
      {next : Except NexusError (Option ι) → Script κ ι}
      (hc : s.calls t = some ⟨k, .factory (.get key next), callers⟩) :
      Moves s t now script (s.setCall t (some ⟨key, .fast, ⟨k, next⟩ :: callers⟩))
  | returned {k : κ} {callers : List (Suspended κ ι)} {obj : Option ι}
      (hc : s.calls t = some ⟨k, .factory (.returns obj), callers⟩) :
      Moves s t now script (s.setCall t (some ⟨k, .store obj, callers⟩))
  | threw {k : κ} {callers : List (Suspended κ ι)}
      (hc : s.calls t = some ⟨k, .factory .throws, callers⟩) :
      Moves s t now script (s.setCall t (some ⟨k, .unlock (.error .factoryThrew), callers⟩))
  | dropped {k : κ} {callers : List (Suspended κ ι)} {obj : Option ι}
      (hc : s.calls t = some ⟨k, .store obj, callers⟩) (hs : s.slots k = none) :
      Moves s t now script
        (s.setCall t (some ⟨k, .unlock (.error .removedDuringConstruction), callers⟩))
  | stored {k : κ} {callers : List (Suspended κ ι)} {slot : Slot φ ι τ} {obj : Option ι}
      (hc : s.calls t = some ⟨k, .store obj, callers⟩) (hs : s.slots k = some slot) :
      Moves s t now script ((s.setSlot k ((slot.store now obj).buildHandle now)).setCall t
        (some ⟨k, .unlock (.ok obj), callers⟩))
  | unlocked {k : κ} {callers : List (Suspended κ ι)} {slot : Slot φ ι τ}
      {result : Except NexusError (Option ι)}
      (hc : s.calls t = some ⟨k, .unlock result, callers⟩) (hs : s.slots k = some slot) :
      Moves s t now script ((s.setSlot k { slot with constructionMutex := none }).setCall t
        (resume result callers))

theorem moves_of_advance {s s' : World φ κ ι τ} {t : τ} {now : ℤ} {script : Script κ ι}
    (h : s.step (.advance t now script) = some s') : s.Moves t now script s' := by
  simp only [step] at h
  split at h
  · cases h
  rename_i call hc
  obtain ⟨k, stage, callers⟩ := call
  cases stage with
  | fast =>
      cases hs : s.slots k with
      | none =>
          simp only [advance, hs, Nexus.fastPath, Option.some.injEq] at h
          exact h ▸ .refused hc hs
      | some slot =>
          cases hr : slot.ready with
          | none =>
              simp only [advance, hs, Nexus.fastPath, hr, Option.map_none, Option.some.injEq] at h
              exact h ▸ .missed hc hs hr
          | some o =>
              simp only [advance, hs, Nexus.fastPath, hr, Option.map_some, Option.some.injEq] at h
              exact h ▸ .found hc hs hr
  | read =>
      cases hs : s.slots k with
      | none =>
          simp only [advance, hs, Nexus.readFactory, Option.some.injEq] at h
          exact h ▸ .lost hc hs
      | some slot =>
          simp only [advance, hs, Nexus.readFactory, Option.some.injEq] at h
          exact h ▸ .copied hc hs
  | lock f =>
      cases hs : s.slots k with
      | none => simp [advance, hs] at h
      | some slot =>
          simp only [advance, hs] at h
          split at h
          · rename_i hm
            exact Option.some.inj h ▸ .locked hc hs hm
          · cases h
  | check f =>
      cases hcheck : Nexus.doubleCheck now (s.slots k) with
      | none =>
          have hr : ∀ slot ∈ s.slots k, slot.ready = none := fun slot hslot => by
            simpa [Nexus.doubleCheck, Option.mem_def.mp hslot] using hcheck
          cases f with
          | none =>
              simp only [advance, hcheck, Option.some.injEq] at h
              exact h ▸ .noFactory hc hr
          | some f =>
              simp only [advance, hcheck, Option.some.injEq] at h
              exact h ▸ .called hc hr
      | some found =>
          cases hs : s.slots k with
          | none => simp [Nexus.doubleCheck, hs] at hcheck
          | some slot =>
              simp only [Nexus.doubleCheck, hs, Option.bind_some, Option.map_eq_some_iff] at hcheck
              obtain ⟨o, hr, rfl⟩ := hcheck
              simp only [advance, Nexus.doubleCheck, hs, Option.bind_some, hr, Option.map_some,
                Option.some.injEq] at h
              exact h ▸ .foundBehind hc hs hr
  | factory running =>
      cases running with
      | get key next => exact Option.some.inj h ▸ .gets hc
      | returns obj => exact Option.some.inj h ▸ .returned hc
      | throws => exact Option.some.inj h ▸ .threw hc
  | store obj =>
      cases hs : s.slots k with
      | none =>
          simp only [advance, hs, Nexus.storeObject, Option.some.injEq] at h
          exact h ▸ .dropped hc hs
      | some slot =>
          simp only [advance, hs, Nexus.storeObject, Option.some.injEq] at h
          exact h ▸ .stored hc hs
  | unlock result =>
      cases hs : s.slots k with
      | none => simp [advance, hs] at h
      | some slot =>
          simp only [advance, hs, Option.some.injEq] at h
          exact h ▸ .unlocked hc hs

/-! ### Locking and unlocking -/

/-- What a step of a call does to the construction mutexes. -/
inductive Effect (s : World φ κ ι τ) (t : τ) (s' : World φ κ ι τ) : Prop
  | keeps (hheld : s'.held = s.held) (howner : s'.owner = s.owner)
  | locks (k : κ) (hfree : s.owner k = none)
      (hheld : s'.held = Function.update s.held t (k :: s.held t))
      (howner : s'.owner = Function.update s.owner k (some t))
  | unlocks (k : κ) (rest : List κ) (hlast : s.held t = k :: rest)
      (hheld : s'.held = Function.update s.held t rest)
      (howner : s'.owner = Function.update s.owner k none)

/-- The call goes on, or comes back to its caller, and holds what it held. -/
theorem Effect.of_setCall {s base : World φ κ ι τ} {t : τ} {call : Call φ κ ι}
    {call' : Option (Call φ κ ι)} (hc : s.calls t = some call) (hbase : base.calls = s.calls)
    (howner : base.owner = s.owner) (hheld : call'.elim [] Call.held = call.held) :
    Effect s t (base.setCall t call') := by
  refine .keeps ?_ howner
  have hsame : base.held = s.held := funext fun u => by simp [held, hbase]
  have hself : s.held t = call.held := by simp [held, hc]
  rw [held_setCall, hheld, hsame, ← hself, Function.update_eq_self]

theorem effect_of_moves {s s' : World φ κ ι τ} {t : τ} {now : ℤ} {script : Script κ ι}
    (h : s.Moves t now script s') : Effect s t s' := by
  cases h with
  | refused hc hs | lost hc hs => exact .of_setCall hc rfl rfl (held_resume _ _)
  | found hc hs hr =>
      exact .of_setCall hc rfl (owner_setSlot_self hs (by simp)) (held_resume _ _)
  | missed hc hs hr | copied hc hs => exact .of_setCall hc rfl rfl rfl
  | @locked k callers slot f hc hs hm =>
      have hheld : s.held t = callers.map (·.key) := by simp [held, hc, Call.held, Stage.locked]
      refine .locks k ((owner_of_slot hs).trans hm) ?_ (owner_setSlot _ _ _)
      rw [held_setCall, hheld]
      rfl
  | foundBehind hc hs hr =>
      exact .of_setCall hc rfl (owner_setSlot_self hs (by simp)) rfl
  | noFactory hc hr | called hc hr | returned hc | threw hc | dropped hc hs | gets hc =>
      exact .of_setCall hc rfl rfl rfl
  | stored hc hs =>
      exact .of_setCall hc rfl (owner_setSlot_self hs (by simp [Slot.store])) rfl
  | @unlocked k callers slot result hc hs =>
      refine .unlocks k (callers.map (·.key)) ?_ ?_ (owner_setSlot _ _ _)
      · simp [held, hc, Call.held, Stage.locked]
      · rw [held_setCall, held_resume]
        rfl

/-- A construction mutex is locked by the thread that has a call on its key behind the lock, and
a thread has one such call for a key at most. -/
structure Locked (s : World φ κ ι τ) : Prop where
  owner_iff : ∀ k t, s.owner k = some t ↔ k ∈ s.held t
  nodup : ∀ t, (s.held t).Nodup

theorem Locked.effect {s s' : World φ κ ι τ} {t : τ} (h : Locked s) (he : Effect s t s') :
    Locked s' := by
  cases he with
  | keeps hheld howner =>
      exact ⟨by rw [hheld, howner]; exact h.owner_iff, by rw [hheld]; exact h.nodup⟩
  | locks k hfree hheld howner =>
      have hnot (u : τ) : k ∉ s.held u := fun hk => by simp [(h.owner_iff k u).mpr hk] at hfree
      refine ⟨fun l u => ?_, fun u => ?_⟩
      · rw [hheld, howner]
        by_cases hu : u = t <;> by_cases hl : l = k
        · subst hu hl
          simp
        · subst hu
          simpa [hl] using h.owner_iff l u
        · subst hl
          simp [hu, Ne.symm hu, hnot u]
        · simpa [hu, hl] using h.owner_iff l u
      · rw [hheld]
        by_cases hu : u = t
        · subst hu
          simpa using ⟨hnot u, h.nodup u⟩
        · simpa [hu] using h.nodup u
  | unlocks k rest hlast hheld howner =>
      have hnodup : k ∉ rest ∧ rest.Nodup := List.nodup_cons.mp (hlast ▸ h.nodup t)
      have howns : s.owner k = some t := (h.owner_iff k t).mpr (by simp [hlast])
      refine ⟨fun l u => ?_, fun u => ?_⟩
      · rw [hheld, howner]
        by_cases hu : u = t <;> by_cases hl : l = k
        · subst hu hl
          simp [hnodup.1]
        · subst hu
          simpa [hl, hlast] using h.owner_iff l u
        · subst hl
          have hnot : l ∉ s.held u := fun hin => by
            rw [(h.owner_iff l u).mpr hin] at howns
            exact hu (Option.some.inj howns)
          simp [hu, hnot]
        · simpa [hu, hl] using h.owner_iff l u
      · rw [hheld]
        by_cases hu : u = t
        · subst hu
          simpa using hnodup.2
        · simpa [hu] using h.nodup u

/-- `dep d k` says that the factory of `k` may get `d`. Factories keep to it, and sweeps erase no
slot. -/
def Obeys (dep : κ → κ → Prop) (s : World φ κ ι τ) : Action φ κ ι τ → Prop
  | .advance t _ script => ∀ call ∈ s.calls t, script.Gets (dep · call.key)
  | .sweep now useCount => ∀ k, ∀ slot ∈ s.slots k, slot.sweep now useCount ≠ none
  | .begin _ _ | .registerFactory _ _ _ | .registerObject _ _ _ _ => True

/-- A step that is not one of a call locks and unlocks nothing. -/
theorem effect_of_step {dep : κ → κ → Prop} {s s' : World φ κ ι τ} {a : Action φ κ ι τ}
    (ha : Obeys dep s a) (h : s.step a = some s') :
    (∃ t now script, a = .advance t now script ∧ s.Moves t now script s') ∨
      s'.held = s.held ∧ s'.owner = s.owner := by
  cases a with
  | advance t now script => exact .inl ⟨t, now, script, rfl, moves_of_advance h⟩
  | begin t key =>
      refine .inr ?_
      simp only [step] at h
      split at h
      · rename_i hc
        obtain rfl := Option.some.inj h
        refine ⟨?_, rfl⟩
        rw [held_setCall]
        exact Function.update_eq_self_iff.mpr (by simp [held, hc, Call.held, Stage.locked])
      · cases h
  | registerFactory key f lt =>
      obtain rfl := Option.some.inj h
      refine .inr ⟨rfl, ?_⟩
      rw [owner_setSlot]
      refine Function.update_eq_self_iff.mpr ?_
      cases hs : s.slots key <;> simp [owner, hs, Nexus.registerFactory, Slot.empty]
  | registerObject key sp lt now =>
      obtain rfl := Option.some.inj h
      refine .inr ⟨rfl, ?_⟩
      rw [owner_setSlot]
      refine Function.update_eq_self_iff.mpr ?_
      cases hs : s.slots key <;> simp [owner, hs, Nexus.registerObject, Slot.empty]
  | sweep now useCount =>
      obtain rfl := Option.some.inj h
      refine .inr ⟨rfl, funext fun k => ?_⟩
      cases hs : s.slots k with
      | none => simp [owner, hs]
      | some slot =>
          obtain ⟨slot', hslot'⟩ := Option.ne_none_iff_exists'.mp (ha k slot hs)
          simp [owner, hs, hslot', sweep_constructionMutex hslot']

theorem locked_step {dep : κ → κ → Prop} {s s' : World φ κ ι τ} {a : Action φ κ ι τ}
    (hi : Locked s) (ha : Obeys dep s a) (h : s.step a = some s') : Locked s' := by
  rcases effect_of_step ha h with ⟨t, now, script, -, hmoves⟩ | ⟨hheld, howner⟩
  · exact hi.effect (effect_of_moves hmoves)
  · exact ⟨by rw [hheld, howner]; exact hi.owner_iff, by rw [hheld]; exact hi.nodup⟩

end World

end Demiplane.Nexus.Nested

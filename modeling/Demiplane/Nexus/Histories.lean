import Mathlib.Data.List.Count
import Demiplane.Nexus.Registry
import Demiplane.Transition.Run

/-!
Histories of one service: calls of `get` and `reset`, sweeps, and handles that go out of
scope, at any times. A registered service stays available as long as its slot does, and a
`Timed` instance that is in use stays where it is as long as it has been touched in time.
-/

namespace Demiplane.Nexus

open Transition

/-- `handles` are the copies of pointers to instances that clients hold. -/
structure Service (φ ι τ : Type*) where
  slot : Option (Slot φ ι τ)
  handles : List ι

inductive Event (ι : Type*) where
  | get (now : ℤ) (outcome : Outcome ι)
  | release (i : ι)
  | reset
  | sweep (now : ℤ)
  deriving DecidableEq, Repr

namespace Service

variable {φ ι τ : Type*}

/-- The handle that a call returns, unless it throws or returns a null pointer. -/
def handle : Except NexusError (Option ι) → List ι
  | .ok (some i) => [i]
  | _ => []

variable [DecidableEq ι]

/-- `use_count()` of an instance that the slot holds. -/
def useCount (s : Service φ ι τ) (i : ι) : ℕ := s.handles.count i + 1

/-- A `reset` that throws leaves everything as it is. -/
def step (s : Service φ ι τ) : Event ι → Option (Service φ ι τ)
  | .get now outcome =>
      let got := Nexus.get now outcome s.slot
      some ⟨got.slot, handle got.result ++ s.handles⟩
  | .release i => if i ∈ s.handles then some { s with handles := s.handles.erase i } else none
  | .reset =>
      match Nexus.reset s.slot with
      | .ok slot => some { s with slot := slot }
      | .error _ => some s
  | .sweep now => some { s with slot := s.slot.bind (Slot.sweep now s.useCount) }

/-- What an event can do to a service. -/
inductive Moves (s : Service φ ι τ) : Event ι → Service φ ι τ → Prop
  | found (now : ℤ) (outcome : Outcome ι) (slot : Slot φ ι τ) (o : ι) :
      s.slot = some slot → slot.ready = some o →
      Moves s (.get now outcome) ⟨some (slot.buildHandle now), o :: s.handles⟩
  | constructed (now : ℤ) (obj : Option ι) (slot : Slot φ ι τ) (f : φ) :
      s.slot = some slot → slot.ready = none → slot.factory = some f →
      Moves s (.get now (.returns obj))
        ⟨some ((slot.store now obj).buildHandle now), obj.toList ++ s.handles⟩
  | failed (now : ℤ) (outcome : Outcome ι) : Moves s (.get now outcome) s
  | released (i : ι) :
      i ∈ s.handles → Moves s (.release i) { s with handles := s.handles.erase i }
  | erased (slot : Slot φ ι τ) :
      s.slot = some slot → slot.lt = .resettable → Moves s .reset { s with slot := none }
  | refused : (∀ slot, s.slot = some slot → slot.lt ≠ .resettable) → Moves s .reset s
  | swept (now : ℤ) :
      Moves s (.sweep now) { s with slot := s.slot.bind (Slot.sweep now s.useCount) }

theorem moves_get (s : Service φ ι τ) (now : ℤ) (outcome : Outcome ι) :
    s.Moves (.get now outcome)
      ⟨(Nexus.get now outcome s.slot).slot,
        handle (Nexus.get now outcome s.slot).result ++ s.handles⟩ := by
  obtain ⟨slot, handles⟩ := s
  cases slot with
  | none =>
    rw [get_none]
    exact .failed now outcome
  | some slot =>
    rcases get_cases now outcome slot with
      ⟨o, hready, hget⟩ | ⟨f, obj, hready, hf, rfl, hget⟩ | ⟨e, hget⟩
    · rw [hget]
      exact .found now outcome slot o rfl hready
    · rw [hget]
      cases obj with
      | none => exact .constructed now none slot f rfl hready hf
      | some i => exact .constructed now (some i) slot f rfl hready hf
    · rw [hget]
      exact .failed now outcome

theorem moves_of_step {s t : Service φ ι τ} {e : Event ι} (h : s.step e = some t) :
    s.Moves e t := by
  cases e with
  | get now outcome =>
    obtain rfl := Option.some.inj h
    exact moves_get s now outcome
  | release i =>
    simp only [step] at h
    split_ifs at h with hmem
    obtain rfl := Option.some.inj h
    exact .released i hmem
  | reset =>
    simp only [step] at h
    cases hslot : s.slot with
    | none =>
      rw [hslot] at h
      obtain rfl := Option.some.inj h
      exact .refused (by simp [hslot])
    | some slot =>
      rw [hslot, Nexus.reset] at h
      by_cases hlt : slot.lt = .resettable
      · rw [if_pos hlt] at h
        obtain rfl := Option.some.inj h
        exact .erased slot hslot hlt
      · rw [if_neg hlt] at h
        obtain rfl := Option.some.inj h
        refine .refused fun slot' hslot' => ?_
        obtain rfl := Option.some.inj (hslot.symm.trans hslot')
        exact hlt
  | sweep now =>
    obtain rfl := Option.some.inj h
    exact .swept now

theorem useCount_eq_one_iff (s : Service φ ι τ) (i : ι) : s.useCount i = 1 ↔ i ∉ s.handles := by
  simp [useCount, List.count_eq_zero]

/-! ### Registrations persist -/

/-- The instance that the next `get` returns without calling the factory. -/
def current (s : Service φ ι τ) : Option ι := s.slot.bind Slot.ready

/-- A `get` returns the instance that there is, or else what the factory returns to it. -/
def Available (s : Service φ ι τ) : Prop :=
  ∀ now obj, (Nexus.get now (.returns obj) s.slot).result = .ok (s.current.or obj) ∧
    (Nexus.get now (.returns obj) s.slot).called = s.current.isNone

/-- The slot, if there is one, has a factory. -/
def HasFactory (s : Service φ ι τ) : Prop := ∀ slot ∈ s.slot, slot.factory.isSome

/-- No `reset` that is permitted, and no sweep that finds an unused instance of a `Scoped`
service. -/
def KeepsSlot (s : Service φ ι τ) : Event ι → Prop
  | .reset => ∀ slot ∈ s.slot, slot.lt ≠ .resettable
  | .sweep _ => ∀ slot ∈ s.slot, slot.lt = .scoped → ∀ o ∈ slot.obj, o ∈ s.handles
  | _ => True

variable {s : Service φ ι τ}

omit [DecidableEq ι] in
theorem available_iff (h : s.HasFactory) :
    s.Available ↔ s.slot.isSome := by
  unfold Available current
  cases hslot : s.slot with
  | none => simp [get_none]
  | some slot =>
    obtain ⟨f, hf⟩ := Option.isSome_iff_exists.mp (h slot hslot)
    refine iff_of_true (fun now obj => ?_) rfl
    cases hready : slot.ready with
    | none => simp [get_constructs hready hf, hready]
    | some o => simp [get_ready hready, hready]

/-- Where there is a slot, a sweep leaves it exactly if it does not find it unused. -/
theorem isSome_sweep_iff (now : ℤ) (s : Service φ ι τ) (slot : Slot φ ι τ) :
    (slot.sweep now s.useCount).isSome ↔
      (slot.lt = .scoped → ∀ o ∈ slot.obj, o ∈ s.handles) := by
  rcases Slot.sweep_cases now s.useCount slot with
    ⟨hscoped, ⟨o, hobj, huse⟩, hsweep⟩ | ⟨⟨idle, hlt, -⟩, hsweep⟩ | ⟨hscoped, -, hsweep⟩
  · rw [hsweep]
    refine iff_of_false (by simp) fun h => ?_
    exact (s.useCount_eq_one_iff o).mp huse (h hscoped o hobj)
  · rw [hsweep]
    exact iff_of_true rfl fun h => by simp [hlt] at h
  · rw [hsweep]
    refine iff_of_true rfl fun h o hobj => ?_
    by_contra hnot
    exact hscoped h o hobj ((s.useCount_eq_one_iff o).mpr hnot)

theorem hasFactory_step {s t : Service φ ι τ} {e : Event ι} (h : s.HasFactory)
    (hstep : s.step e = some t) : t.HasFactory := by
  intro slot' hslot'
  cases moves_of_step hstep with
  | found now outcome slot o hslot hready =>
    obtain rfl := Option.some.inj hslot'
    simpa using h slot hslot
  | constructed now obj slot f hslot hready hf =>
    obtain rfl := Option.some.inj hslot'
    simp [Slot.store, hf]
  | failed now outcome => exact h slot' hslot'
  | released i hmem => exact h slot' hslot'
  | erased slot hslot hlt => simp at hslot'
  | refused hlt => exact h slot' hslot'
  | swept now =>
    obtain ⟨slot, hslot, hsweep⟩ := Option.bind_eq_some_iff.mp hslot'
    have hfactory := h slot hslot
    rcases Slot.sweep_cases now s.useCount slot with
      ⟨-, -, hnone⟩ | ⟨-, hsome⟩ | ⟨-, -, hsome⟩
    · simp [hnone] at hsweep
    · obtain rfl := Option.some.inj (hsome.symm.trans hsweep)
      exact hfactory
    · obtain rfl := Option.some.inj (hsome.symm.trans hsweep)
      exact hfactory

theorem isSome_step_iff {s t : Service φ ι τ} {e : Event ι} (h : s.slot.isSome)
    (hstep : s.step e = some t) : t.slot.isSome ↔ s.KeepsSlot e := by
  cases moves_of_step hstep with
  | found now outcome slot o hslot hready => exact iff_of_true rfl trivial
  | constructed now obj slot f hslot hready hf => exact iff_of_true rfl trivial
  | failed now outcome => exact iff_of_true h trivial
  | released i hmem => exact iff_of_true h trivial
  | erased slot hslot hlt => exact iff_of_false (by simp) fun hkeep => hkeep slot hslot hlt
  | refused hlt => exact iff_of_true h hlt
  | swept now =>
    obtain ⟨slot, hslot⟩ := Option.isSome_iff_exists.mp h
    simp only [KeepsSlot, hslot, Option.bind_some, Option.mem_some_iff, forall_eq']
    exact isSome_sweep_iff now s slot

instance (s : Service φ ι τ) (e : Event ι) : Decidable (s.KeepsSlot e) :=
  match e with
  | .reset => inferInstanceAs (Decidable (∀ slot ∈ s.slot, slot.lt ≠ .resettable))
  | .sweep _ => inferInstanceAs
      (Decidable (∀ slot ∈ s.slot, slot.lt = .scoped → ∀ o ∈ slot.obj, o ∈ s.handles))
  | .get _ _ => isTrue trivial
  | .release _ => isTrue trivial

/-- A service after its registration with a factory, over a slot that may have been there
before. -/
def registered (f : φ) (lt : Lifetime) (prior : Option (Slot φ ι τ)) (handles : List ι) :
    Service φ ι τ :=
  ⟨some (registerFactory f lt prior), handles⟩

/-- A service registered with a factory is available in all of its history exactly if no
`reset` that is permitted and no sweep takes its slot away. -/
theorem available_always_iff (f : φ) (lt : Lifetime) (prior : Option (Slot φ ι τ))
    (handles : List ι) {events : List (Event ι)} {s : Service φ ι τ}
    (h : run step (registered f lt prior handles) events = some s) :
    Always step Available (registered f lt prior handles) events ↔
      Guarded step KeepsSlot (registered f lt prior handles) events := by
  have hinit : HasFactory (registered f lt prior handles) := by
    intro slot hslot
    obtain rfl := Option.some.inj hslot
    rfl
  refine always_iff_guarded hinit (fun s e t hs => hasFactory_step hs) ?_ ?_ h
  · exact (available_iff hinit).mpr rfl
  · intro s e t hs havailable hstep
    rw [available_iff (hasFactory_step hs hstep)]
    exact isSome_step_iff ((available_iff hs).mp havailable) hstep

/-- A `Timed` instance is dropped and built again. -/
def builtAgain : List (Event ℕ) :=
  [.get 1000000000 (.returns (some 7)), .release 7, .sweep 10000000000,
    .get 11000000000 (.returns (some 8))]

theorem available_always_builtAgain :
    (run step (registered 0 (.timed 5) none [] : Service ℕ ℕ ℕ) builtAgain).isSome ∧
      Always step Available (registered 0 (.timed 5) none [] : Service ℕ ℕ ℕ) builtAgain :=
  ⟨rfl, (available_always_iff 0 (.timed 5) none [] rfl).mpr (by decide)⟩

/-- After `reset` of a `Resettable` service, and after a sweep that finds a `Scoped` one
unused, `get` does not find the registration. -/
theorem registration_lost :
    ¬ Always step Available (registered 0 .resettable none [] : Service ℕ ℕ ℕ)
      [.get 1 (.returns (some 7)), .reset] ∧
    ¬ Always step Available (registered 0 .scoped none [] : Service ℕ ℕ ℕ)
      [.get 1 (.returns (some 7)), .release 7, .sweep 2] := by
  constructor
  · intro h
    have hget := (h _ List.prefix_rfl _ rfl 3 (some 8)).1
    exact absurd hget (by decide)
  · intro h
    have hget := (h _ List.prefix_rfl _ rfl 3 (some 8)).1
    exact absurd hget (by decide)

/-! ### Timed instances in use -/

/-- The service is there, `Timed`, and its flag has not been raised (it never is). -/
def IsTimed (idle : Int64) (s : Service φ ι τ) : Prop :=
  ∃ slot, s.slot = some slot ∧ slot.lt = .timed idle ∧ slot.expiredFlag ≠ some true

/-- Every handle is one to the instance in the slot. -/
def HandlesCurrent (s : Service φ ι τ) : Prop :=
  ∀ slot ∈ s.slot, ∀ i ∈ s.handles, slot.obj = some i

/-- Clients hold handles to one instance at most. -/
def AtMostOne (s : Service φ ι τ) : Prop := ∀ i ∈ s.handles, ∀ j ∈ s.handles, i = j

/-- The sweep does not drop an instance that clients have handles to. -/
def KeepsInUse (s : Service φ ι τ) : Event ι → Prop
  | .sweep now => ∀ slot ∈ s.slot, ∀ o ∈ slot.obj, o ∈ s.handles →
      ∃ slot', slot.sweep now s.useCount = some slot' ∧ slot'.obj = some o
  | _ => True

/-- An instance that clients have handles to has been touched in time for the sweep. -/
def InTime (idle : Int64) (s : Service φ ι τ) : Event ι → Prop
  | .sweep now => ∀ slot ∈ s.slot, ∀ o ∈ slot.obj, o ∈ s.handles →
      now - slot.lastTouch ≤ idle.toInt * 1000000000
  | _ => True

/-- A `Timed` service after its registration with a factory or with an object, which the
one that registers it may have handles to. -/
inductive TimedStart (idle : Int64) : Service φ ι τ → Prop
  | factory (f : φ) (prior : Option (Slot φ ι τ)) :
      (∀ slot ∈ prior, slot.expiredFlag ≠ some true) →
      TimedStart idle (registered f (.timed idle) prior [])
  | object (sp : Option ι) (now : ℤ) (prior : Option (Slot φ ι τ)) (handles : List ι) :
      (∀ slot ∈ prior, slot.expiredFlag ≠ some true) → (∀ i ∈ handles, sp = some i) →
      TimedStart idle ⟨some (registerObject sp (.timed idle) now prior), handles⟩

theorem isTimed_step {idle : Int64} {s t : Service φ ι τ} {e : Event ι} (h : s.IsTimed idle)
    (hstep : s.step e = some t) : t.IsTimed idle := by
  obtain ⟨slot, hslot, hlt, hflag⟩ := h
  cases moves_of_step hstep with
  | found now outcome slot' o hslot' hready =>
    obtain rfl := Option.some.inj (hslot.symm.trans hslot')
    exact ⟨_, rfl, by simpa using hlt, by simpa using hflag⟩
  | constructed now obj slot' f hslot' hready hf =>
    obtain rfl := Option.some.inj (hslot.symm.trans hslot')
    refine ⟨_, rfl, by simpa [Slot.store] using hlt, ?_⟩
    simp [Slot.store, Slot.isTimed, hlt]
  | failed now outcome => exact ⟨slot, hslot, hlt, hflag⟩
  | released i hmem => exact ⟨slot, hslot, hlt, hflag⟩
  | erased slot' hslot' hlt' =>
    obtain rfl := Option.some.inj (hslot.symm.trans hslot')
    simp [hlt] at hlt'
  | refused hlt' => exact ⟨slot, hslot, hlt, hflag⟩
  | swept now =>
    rcases Slot.sweep_cases now s.useCount slot with
      ⟨hscoped, -⟩ | ⟨-, hsweep⟩ | ⟨-, -, hsweep⟩
    · simp [hlt] at hscoped
    · exact ⟨{ slot with obj := none }, by simp [hslot, hsweep], hlt, hflag⟩
    · exact ⟨slot, by simp [hslot, hsweep], hlt, hflag⟩

theorem keepsInUse_iff_inTime {idle : Int64} (hfits : Fits idle)
    (h : s.IsTimed idle) (e : Event ι) : s.KeepsInUse e ↔ s.InTime idle e := by
  obtain ⟨slot, hslot, hlt, -⟩ := h
  cases e with
  | get now outcome => exact Iff.rfl
  | release i => exact Iff.rfl
  | reset => exact Iff.rfl
  | sweep now =>
    simp only [KeepsInUse, InTime, hslot, Option.mem_some_iff, forall_eq',
      ← nanoseconds_of_fits hfits]
    refine forall_congr' fun o => forall_congr' fun hobj => forall_congr' fun hmem => ?_
    rcases Slot.sweep_cases now s.useCount slot with
      ⟨hscoped, -⟩ | ⟨⟨idle', hlt', hidle⟩, hsweep⟩ | ⟨-, hidle, hsweep⟩
    · simp [hlt] at hscoped
    · obtain rfl : idle = idle' := by simpa [hlt] using hlt'
      refine iff_of_false ?_ (not_le.mpr hidle)
      rintro ⟨slot', hslot', hobj'⟩
      obtain rfl := Option.some.inj (hsweep.symm.trans hslot')
      simp at hobj'
    · exact iff_of_true ⟨slot, hsweep, hobj⟩ (hidle idle hlt)

/-- A new instance is built only where there is none, and then nobody has a handle. -/
theorem handlesCurrent_step {idle : Int64} (hfits : Fits idle) {s t : Service φ ι τ}
    {e : Event ι} (h : s.IsTimed idle) (hcurrent : s.HandlesCurrent) (hguard : s.InTime idle e)
    (hstep : s.step e = some t) : t.HandlesCurrent := by
  obtain ⟨slot, hslot, hlt, hflag⟩ := h
  have hready := Slot.ready_eq_obj hflag
  have hheld := hcurrent slot hslot
  intro slot' hslot' i hi
  cases moves_of_step hstep with
  | found now outcome slot₁ o hslot₁ ho =>
    obtain rfl := Option.some.inj (hslot.symm.trans hslot₁)
    obtain rfl := Option.some.inj hslot'
    rw [hready] at ho
    rcases List.mem_cons.mp hi with rfl | hi
    · simpa using ho
    · simpa using hheld i hi
  | constructed now obj slot₁ f hslot₁ hnone hf =>
    obtain rfl := Option.some.inj (hslot.symm.trans hslot₁)
    obtain rfl := Option.some.inj hslot'
    rcases List.mem_append.mp hi with hi | hi
    · simpa [Slot.store] using hi
    · rw [hready, hheld i hi] at hnone
      cases hnone
  | failed now outcome => exact hcurrent slot' hslot' i hi
  | released j hmem => exact hcurrent slot' hslot' i (List.mem_of_mem_erase hi)
  | erased slot₁ hslot₁ hlt₁ => simp at hslot'
  | refused hlt₁ => exact hcurrent slot' hslot' i hi
  | swept now =>
    have hobj := hheld i hi
    obtain ⟨slot₁, hsweep, hobj₁⟩ :=
      (keepsInUse_iff_inTime hfits ⟨slot, hslot, hlt, hflag⟩ _).mpr hguard slot hslot i hobj hi
    have heq : some slot₁ = some slot' := by
      rw [← hsweep]
      simpa [hslot] using hslot'
    obtain rfl := Option.some.inj heq
    exact hobj₁

omit [DecidableEq ι] in
theorem atMostOne_of_handlesCurrent {idle : Int64} (h : s.IsTimed idle)
    (hcurrent : s.HandlesCurrent) : s.AtMostOne := by
  obtain ⟨slot, hslot, -⟩ := h
  intro i hi j hj
  exact Option.some.inj ((hcurrent slot hslot i hi).symm.trans (hcurrent slot hslot j hj))

omit [DecidableEq ι] in
theorem TimedStart.isTimed {idle : Int64} (h : TimedStart idle s) :
    s.IsTimed idle := by
  have hflag : ∀ prior : Option (Slot φ ι τ), (∀ slot ∈ prior, slot.expiredFlag ≠ some true) →
      (prior.getD Slot.empty).expiredFlag ≠ some true := by
    intro prior hprior
    cases prior with
    | none => simp [Slot.empty]
    | some slot => exact hprior slot rfl
  cases h with
  | factory f prior hprior => exact ⟨_, rfl, rfl, hflag prior hprior⟩
  | object sp now prior handles hprior hhandles => exact ⟨_, rfl, rfl, hflag prior hprior⟩

omit [DecidableEq ι] in
theorem TimedStart.handlesCurrent {idle : Int64} (h : TimedStart idle s) :
    s.HandlesCurrent := by
  intro slot hslot i hi
  cases h with
  | factory f prior hprior => cases hi
  | object sp now prior handles hprior hhandles =>
    obtain rfl := Option.some.inj hslot
    exact hhandles i hi

/-- Sweeps drop no `Timed` instance in use, and clients never have handles to two of them,
exactly if every sweep finds an instance in use touched in time. The limit is one that fits. -/
theorem timed_inUse_iff {idle : Int64} (hfits : Fits idle) {s₀ : Service φ ι τ}
    (h₀ : TimedStart idle s₀) {events : List (Event ι)} {s : Service φ ι τ}
    (h : run step s₀ events = some s) :
    (Guarded step KeepsInUse s₀ events ∧ Always step AtMostOne s₀ events) ↔
      Guarded step (InTime idle) s₀ events := by
  constructor
  · rintro ⟨hkeeps, -⟩
    exact hkeeps.mono (I := IsTimed idle) h₀.isTimed
      (fun s e t hs _ => isTimed_step hs) fun s e hs => (keepsInUse_iff_inTime hfits hs e).mp
  · intro hguard
    refine ⟨?_, ?_⟩
    · exact hguard.mono (I := IsTimed idle) h₀.isTimed
        (fun s e t hs _ => isTimed_step hs) fun s e hs => (keepsInUse_iff_inTime hfits hs e).mpr
    · refine always_of_guarded (I := fun s => s.IsTimed idle ∧ s.HandlesCurrent)
        ⟨h₀.isTimed, h₀.handlesCurrent⟩ ?_ ?_ h hguard
      · rintro s e t ⟨htimed, hcurrent⟩ hg hstep
        exact ⟨isTimed_step htimed hstep, handlesCurrent_step hfits htimed hcurrent hg hstep⟩
      · rintro s ⟨htimed, hcurrent⟩
        exact atMostOne_of_handlesCurrent htimed hcurrent

instance (idle : Int64) (s : Service φ ι τ) (e : Event ι) : Decidable (s.InTime idle e) :=
  match e with
  | .sweep now => inferInstanceAs (Decidable (∀ slot ∈ s.slot, ∀ o ∈ slot.obj, o ∈ s.handles →
      now - slot.lastTouch ≤ idle.toInt * 1000000000))
  | .get _ _ => isTrue trivial
  | .release _ => isTrue trivial
  | .reset => isTrue trivial

theorem timed_inUse_builtAgain :
    Fits 5 ∧ TimedStart 5 (registered 0 (.timed 5) none [] : Service ℕ ℕ ℕ) ∧
      Guarded step KeepsInUse (registered 0 (.timed 5) none [] : Service ℕ ℕ ℕ) builtAgain ∧
      Always step AtMostOne (registered 0 (.timed 5) none [] : Service ℕ ℕ ℕ) builtAgain :=
  ⟨by decide, .factory 0 none (by simp),
    (timed_inUse_iff (by decide) (.factory 0 none (by simp)) rfl).mpr (by decide)⟩

/-- An instance that is in use and has not been asked for is dropped and built again; then
there are handles to both. One with the greatest limit, which does not fit, is dropped at once. -/
theorem timed_duplicated :
    ¬ Guarded step KeepsInUse (registered 0 (.timed 5) none [] : Service ℕ ℕ ℕ)
      [.get 1000000000 (.returns (some 7)), .sweep 10000000000] ∧
    ¬ Always step AtMostOne (registered 0 (.timed 5) none [] : Service ℕ ℕ ℕ)
      [.get 1000000000 (.returns (some 7)), .sweep 10000000000,
        .get 11000000000 (.returns (some 8))] ∧
    ¬ Guarded step KeepsInUse (registered 0 (.timed Int64.maxValue) none [] : Service ℕ ℕ ℕ)
      [.get 1000000000 (.returns (some 7)), .sweep 1000000001] := by
  have hdropped : ∀ {w : Service ℕ ℕ ℕ} {now slot}, w.slot = some slot → slot.obj = some 7 →
      7 ∈ w.handles → slot.sweep now w.useCount = some { slot with obj := none } →
      ¬ w.KeepsInUse (.sweep now) := by
    intro w now slot hslot hobj hmem hsweep hkeeps
    obtain ⟨slot', hsweep', hobj'⟩ := hkeeps slot hslot 7 hobj hmem
    obtain rfl := Option.some.inj (hsweep.symm.trans hsweep')
    cases hobj'
  refine ⟨?_, ?_, ?_⟩
  · intro h
    rw [guarded_cons rfl, guarded_cons rfl] at h
    exact hdropped rfl rfl (by decide) rfl h.2.1
  · intro h
    have hsame : (8 : ℕ) = 7 := h _ List.prefix_rfl _ rfl 8 (by decide) 7 (by decide)
    cases hsame
  · intro h
    rw [guarded_cons rfl, guarded_cons rfl] at h
    exact hdropped rfl rfl (by decide) rfl h.2.1

end Service

end Demiplane.Nexus

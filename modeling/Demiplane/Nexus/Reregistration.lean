import Demiplane.Nexus.Concurrent

/-!
Registrations of a key that is in use. A `get` copies the factory, calls it without the
registry's mutex, and stores what it has returned; a registration in between is not seen.
-/

namespace Demiplane.Nexus.World

open Transition

variable {τ : Type*} [DecidableEq τ]

/-- A `get` that begins now and finds an object finds one of the latest registration. -/
def SlotCurrent (s : World τ) : Prop := ∀ o ∈ s.object, o.origin + 1 = s.registrations

/-- The instance that is about to be stored comes from the latest registration: there was
none since its factory was copied. -/
def StoresCurrent (s : World τ) : Action τ → Prop
  | .get t (.store _) =>
      s.slot.isSome → ∀ o ∈ (s.calls t).newObj, o.origin + 1 = s.registrations
  | _ => True

/-- No call of `get` has returned an instance of a registration that is older than one that
was there when the call began. -/
def Fresh (s : World τ) : Prop :=
  ∀ t own o, s.calls t = .done own (.ok (some o)) → s.since t ≤ o.origin + 1

/-- Every call that ends with an instance is as old as its registration at most. -/
structure Dated (s : World τ) : Prop where
  current : s.SlotCurrent
  since_le : ∀ t, s.since t ≤ s.registrations
  yields : ∀ t o, (s.calls t).Yields o → s.since t ≤ o.origin + 1

theorem Moves.since_le {s s' : World τ} {t : τ} {a : Section} (h : s.Moves t a s')
    (hs : ∀ t, s.since t ≤ s.registrations) (t' : τ) : s'.since t' ≤ s'.registrations := by
  rw [h.registrations]
  by_cases ht : t' = t
  · subst ht
    cases h with
    | began hcall => simp
    | _ => exact hs t'
  · rw [(h.frame ht).2]
    exact hs t'

theorem Moves.slotCurrent_iff {s s' : World τ} {t : τ} {a : Section} (h : s.Moves t a s')
    (hs : s.SlotCurrent) : s'.SlotCurrent ↔ s.StoresCurrent (.get t a) := by
  rcases h.object with hsame | ⟨now, obj, rfl, hcall, hslot, hstored⟩
  · have hcurrent : s'.SlotCurrent := by
      rw [SlotCurrent, hsame, h.registrations]
      exact hs
    refine iff_of_true hcurrent ?_
    cases h with
    | stored now obj slot hcall hslot =>
      intro _ o ho
      rw [hcall] at ho
      exact hcurrent o (by simpa [World.object, goto, Slot.store, Call.newObj] using ho)
    | dropped now obj hcall hslot =>
      intro hsome
      simp [hslot] at hsome
    | _ => trivial
  · simp only [SlotCurrent, StoresCurrent, hstored, h.registrations, hcall, hslot, forall_true_left,
      Call.newObj]

theorem slotCurrent_step_iff {s s' : World τ} {a : Action τ} (hs : s.SlotCurrent)
    (h : s.step a = some s') : s'.SlotCurrent ↔ s.StoresCurrent a := by
  cases a with
  | get t a => exact (moves_of_getStep h).slotCurrent_iff hs
  | registerFactory lt =>
    obtain rfl := Option.some.inj h
    refine iff_of_true (fun o ho => ?_) trivial
    simp [World.object, Nexus.registerFactory] at ho
  | registerObject serial lt now =>
    obtain rfl := Option.some.inj h
    refine iff_of_true (fun o ho => ?_) trivial
    have hobj : serial.map (⟨s.registrations, ·⟩) = some o := by
      simpa [World.object, Nexus.registerObject] using ho
    obtain ⟨n, -, rfl⟩ := Option.map_eq_some_iff.mp hobj
    rfl
  | sweep now useCount =>
    obtain rfl := Option.some.inj h
    refine iff_of_true (fun o ho => ?_) trivial
    obtain ⟨slot', hslot', hobj⟩ := Option.bind_eq_some_iff.mp (Option.mem_def.mp ho)
    obtain ⟨slot, hslot, hsweep⟩ := Option.bind_eq_some_iff.mp hslot'
    refine hs o (Option.bind_eq_some_iff.mpr ⟨slot, hslot, ?_⟩)
    exact Slot.obj_of_sweep hsweep hobj

theorem Dated.step {s s' : World τ} {a : Action τ} (hs : s.Dated) (hguard : s.StoresCurrent a)
    (h : s.step a = some s') : s'.Dated := by
  refine ⟨(slotCurrent_step_iff hs.current h).mpr hguard, ?_, ?_⟩
  · cases a with
    | get t a => exact (moves_of_getStep h).since_le hs.since_le
    | registerFactory lt =>
      obtain rfl := Option.some.inj h
      exact fun t => (hs.since_le t).trans (Nat.le_succ _)
    | registerObject serial lt now =>
      obtain rfl := Option.some.inj h
      exact fun t => (hs.since_le t).trans (Nat.le_succ _)
    | sweep now useCount =>
      obtain rfl := Option.some.inj h
      exact hs.since_le
  · intro t' o hyields
    cases a with
    | get t a =>
      have hmoves := moves_of_getStep h
      by_cases ht : t' = t
      · subst ht
        obtain ⟨hsince, hearlier | hslot | ⟨now, rfl, hsome, hcall⟩⟩ := hmoves.yields hyields
        · rw [hsince]
          exact hs.yields t' o hearlier
        · rw [hsince, hs.current o hslot]
          exact hs.since_le t'
        · rw [hsince, hguard hsome o (by rw [hcall]; rfl)]
          exact hs.since_le t'
      · obtain ⟨hcalls, hsince⟩ := hmoves.frame ht
        rw [hcalls] at hyields
        rw [hsince]
        exact hs.yields t' o hyields
    | registerFactory lt =>
      obtain rfl := Option.some.inj h
      exact hs.yields t' o hyields
    | registerObject serial lt now =>
      obtain rfl := Option.some.inj h
      exact hs.yields t' o hyields
    | sweep now useCount =>
      obtain rfl := Option.some.inj h
      exact hs.yields t' o hyields

/-- A registry in which nothing has been registered, and no call. -/
def empty : World τ := ⟨none, fun _ => .idle, 0, fun _ => 0, []⟩

/-- The slot holds no object of an outdated registration exactly if none is stored, and then
no `get` returns an object of a registration older than the latest one before it began. -/
theorem reregistration_iff {actions : List (Action τ)} {s : World τ}
    (h : run step empty actions = some s) :
    (Always step SlotCurrent empty actions ↔ Guarded step StoresCurrent empty actions) ∧
      (Guarded step StoresCurrent empty actions → Always step Fresh empty actions) := by
  have hempty : (empty : World τ).Dated := by
    refine ⟨fun o ho => by simp [empty, World.object] at ho, fun t => le_rfl, fun t o ho => ?_⟩
    exact ho.elim
  constructor
  · exact always_iff_guarded (I := fun _ => True) trivial (fun _ _ _ _ _ => trivial)
      hempty.current (fun s a t _ hs => slotCurrent_step_iff hs) h
  · intro hguard
    refine always_of_guarded hempty (fun s a t hs => hs.step) ?_ h hguard
    intro s hs t own o hdone
    exact hs.yields t o (by rw [hdone]; rfl)

instance (s : World τ) (a : Action τ) : Decidable (s.StoresCurrent a) :=
  match a with
  | .get t (.store _) => inferInstanceAs
      (Decidable (s.slot.isSome → ∀ o ∈ (s.calls t).newObj, o.origin + 1 = s.registrations))
  | .get _ .begin | .get _ (.fastPath _) | .get _ .readFactory | .get _ .lock
  | .get _ (.doubleCheck _) | .get _ (.callFactory _) | .get _ .unlock => isTrue trivial
  | .registerFactory _ | .registerObject _ _ _ | .sweep _ _ => isTrue trivial

/-- A registration, a `get`, another registration, and a `get` of another thread. -/
def registeredTwice : List (Action ℕ) :=
  [Action.registerFactory .resettable] ++ untilFactory 0 ++ fromFactory 0 (some ⟨0, 5⟩) ++
    [Action.registerFactory .immortal] ++ untilFactory 1 ++ fromFactory 1 (some ⟨1, 6⟩)

theorem reregistration_registeredTwice :
    (run step empty registeredTwice).isSome ∧ Always step Fresh empty registeredTwice :=
  ⟨rfl, (reregistration_iff rfl).2 (by decide)⟩

/-- The second registration comes while the factory of the first one is called. -/
def registeredMeanwhile : List (Action ℕ) :=
  [Action.registerFactory .resettable] ++ untilFactory 0 ++ [Action.registerFactory .resettable] ++
    fromFactory 0 (some ⟨0, 5⟩) ++ [Action.get 1 .begin, .get 1 (.fastPath 4)]

theorem outdated_object_returned :
    (run step empty registeredMeanwhile).isSome ∧
      ¬ Always step Fresh empty registeredMeanwhile := by
  refine ⟨rfl, fun h => ?_⟩
  have hsince : 2 ≤ 0 + 1 := h _ List.prefix_rfl _ rfl 1 false ⟨0, 5⟩ rfl
  omega

end Demiplane.Nexus.World

import Mathlib.Data.List.ReduceOption
import Demiplane.Nexus.Concurrent

/-!
Construction of an instance by calls of `get` that compete: the construction mutex and the
second look behind it let one instance be built.
-/

namespace Demiplane.Nexus

open Transition

namespace World

variable {τ : Type*} [DecidableEq τ]

/-- The instances that factories have returned, null pointers left out. -/
def instances (s : World τ) : List Instance := s.built.reduceOption

/-- One instance at most has been built. A call that returns an instance returns that one,
and one that returns a null pointer has got it from its own call of the factory. -/
def OneInstance (s : World τ) : Prop :=
  s.instances.length ≤ 1 ∧ ∀ t own result, s.calls t = .done own (.ok result) →
    (∀ o, result = some o → s.instances = [o]) ∧ (result = none → own = true)

/-- A service registered once, with a factory, and no call. -/
def registeredOnce (lt : Lifetime) : World τ :=
  ⟨some (Nexus.registerFactory 0 lt none), fun _ => .idle, 1, fun _ => 0, []⟩

end World

/-- The call holds the construction mutex. -/
def Call.Holds : Call → Prop
  | .check _ => True
  | .factory _ => True
  | .store _ => True
  | .unlock _ _ => True
  | _ => False

/-- The call has found the slot empty and not yet stored anything. -/
def Call.Builds : Call → Prop
  | .factory _ => True
  | .store _ => True
  | _ => False

/-- The call ends with a null pointer, or has ended with one, that it has not got from the
factory. -/
def Call.YieldsNull : Call → Prop
  | .unlock own result => own = false ∧ result = .ok none
  | .done own result => own = false ∧ result = .ok none
  | _ => False

namespace World

variable {τ : Type*} [DecidableEq τ]

/-- What holds of a slot that is never swept and of the calls on it. -/
structure Once (s : World τ) (slot : Slot ℕ Instance τ) : Prop where
  slot_eq : s.slot = some slot
  lt : slot.lt = .immortal ∨ slot.lt = .resettable
  mutex : ∀ t, (s.calls t).Holds → slot.constructionMutex = some t
  builds : ∀ t, (s.calls t).Builds → slot.obj = none ∧ s.instances = (s.calls t).newObj.toList
  settled : (∀ t, ¬ (s.calls t).Builds) → s.instances = slot.obj.toList
  yields : ∀ t o, (s.calls t).Yields o → slot.obj = some o
  yieldsNull : ∀ t, ¬ (s.calls t).YieldsNull

namespace Once

variable {s s' : World τ} {slot : Slot ℕ Instance τ} {t : τ}

omit [DecidableEq τ] in
theorem congr (h : s.Once slot) (hslot : s'.slot = s.slot) (hcalls : s'.calls = s.calls)
    (hbuilt : s'.built = s.built) : s'.Once slot := by
  obtain ⟨slot', calls, registrations, since, built⟩ := s'
  subst hslot hcalls hbuilt
  exact ⟨h.slot_eq, h.lt, h.mutex, h.builds, h.settled, h.yields, h.yieldsNull⟩

omit [DecidableEq τ] in
theorem ready_eq_obj (h : s.Once slot) : slot.ready = slot.obj := by
  have htimed : slot.isTimed = false := by
    rcases h.lt with hlt | hlt <;> simp [Slot.isTimed, hlt]
  rw [Slot.ready, htimed, Bool.false_and, if_neg Bool.false_ne_true]

omit [DecidableEq τ] in
/-- Only the holder of the mutex builds. -/
theorem not_builds (h : s.Once slot) (ht : (s.calls t).Holds) {t' : τ} (hne : t' ≠ t) :
    ¬ (s.calls t').Builds := by
  intro hbuilds
  have hholds : (s.calls t').Holds := by
    revert hbuilds
    cases s.calls t' <;> simp [Call.Builds, Call.Holds]
  exact hne (Option.some.inj ((h.mutex t' hholds).symm.trans (h.mutex t ht)))

/-- The same slot but for its mutex and its time stamp, with the call at a place where it
has not decided anything. -/
theorem goto (h : s.Once slot) {slot' : Slot ℕ Instance τ} (call : Call)
    (hlt : slot'.lt = slot.lt) (hobj : slot'.obj = slot.obj)
    (hmutex : ∀ t', t' ≠ t → slot.constructionMutex = some t' →
      slot'.constructionMutex = some t')
    (hholds : call.Holds → slot'.constructionMutex = some t)
    (hbefore : ¬ (s.calls t).Builds) (hbuilds : ¬ call.Builds)
    (hyields : ∀ o, call.Yields o → slot.obj = some o) (hnull : ¬ call.YieldsNull) :
    ({ s with slot := some slot' }.goto t call).Once slot' where
  slot_eq := rfl
  lt := hlt ▸ h.lt
  mutex t' ht' := by
    rw [calls_goto] at ht'
    split_ifs at ht' with heq
    · exact heq ▸ hholds ht'
    · exact hmutex t' heq (h.mutex t' ht')
  builds t' ht' := by
    rw [calls_goto] at ht' ⊢
    split_ifs at ht' ⊢ with heq
    · exact absurd ht' hbuilds
    · exact hobj ▸ h.builds t' ht'
  settled hnone := by
    rw [hobj]
    refine h.settled fun t' ht' => ?_
    by_cases heq : t' = t
    · exact hbefore (heq ▸ ht')
    · exact hnone t' (by rwa [calls_goto, if_neg heq])
  yields t' o ht' := by
    rw [calls_goto] at ht'
    rw [hobj]
    split_ifs at ht' with heq
    · exact hyields o ht'
    · exact h.yields t' o ht'
  yieldsNull t' := by
    rw [calls_goto]
    split_ifs with heq
    · exact hnull
    · exact h.yieldsNull t'

/-- A call that has not found anything goes on. -/
theorem quiet (h : s.Once slot) {call : Call}
    (hquiet : call = .fast ∨ call = .read ∨ ∃ f, call = .lock f)
    (hbefore : ¬ (s.calls t).Builds) : (s.goto t call).Once slot := by
  have hnot : ¬ call.Holds ∧ ¬ call.Builds ∧ (∀ o, ¬ call.Yields o) ∧ ¬ call.YieldsNull := by
    rcases hquiet with rfl | rfl | ⟨f, rfl⟩ <;>
      simp [Call.Holds, Call.Builds, Call.Yields, Call.YieldsNull]
  obtain ⟨hholds, hbuilds, hyields, hnull⟩ := hnot
  have hgoto := h.goto (t := t) call rfl rfl (fun _ _ hm => hm) (fun hc => absurd hc hholds)
    hbefore hbuilds (fun o ho => absurd ho (hyields o)) hnull
  exact hgoto.congr h.slot_eq rfl rfl

/-- The holder of the mutex begins to build, has got something, or has stored it. -/
theorem holder (h : s.Once slot) (ht : (s.calls t).Holds) {slot' : Slot ℕ Instance τ}
    (call : Call) {built : List (Option Instance)} (hlt : slot'.lt = slot.lt)
    (hmutex : slot'.constructionMutex = slot.constructionMutex) (hempty : slot.obj = none)
    (hbuilds : call.Builds → slot'.obj = none ∧ built.reduceOption = call.newObj.toList)
    (hsettled : ¬ call.Builds → built.reduceOption = slot'.obj.toList)
    (hyields : ∀ o, call.Yields o → slot'.obj = some o) (hnull : ¬ call.YieldsNull) :
    ({ s with slot := some slot', built := built }.goto t call).Once slot' where
  slot_eq := rfl
  lt := hlt ▸ h.lt
  mutex t' ht' := by
    rw [hmutex]
    by_cases heq : t' = t
    · exact heq ▸ h.mutex t ht
    · rw [calls_goto, if_neg heq] at ht'
      exact h.mutex t' ht'
  builds t' ht' := by
    rw [calls_goto] at ht' ⊢
    split_ifs at ht' ⊢ with heq
    · exact hbuilds ht'
    · exact absurd ht' (h.not_builds ht heq)
  settled hnone := by
    have hcall := hnone t
    rw [calls_goto, if_pos rfl] at hcall
    exact hsettled hcall
  yields t' o ht' := by
    rw [calls_goto] at ht'
    split_ifs at ht' with heq
    · exact hyields o ht'
    · -- nobody has got an instance before there was one
      have hobj := h.yields t' o ht'
      rw [hempty] at hobj
      cases hobj
  yieldsNull t' := by
    rw [calls_goto]
    split_ifs with heq
    · exact hnull
    · exact h.yieldsNull t'

/-- The instance that is there is found, before the mutex or behind it. -/
theorem found (h : s.Once slot) {now : ℤ} {o : Instance} (hready : slot.ready = some o)
    {call : Call} (hcall : call = .done false (.ok (some o)) ∨ call = .unlock false (.ok (some o)))
    (hholds : call.Holds → (s.calls t).Holds) (hbefore : ¬ (s.calls t).Builds) :
    ({ s with slot := some (slot.buildHandle now) }.goto t call).Once (slot.buildHandle now) := by
  have hobj := Slot.obj_of_ready hready
  have hmutex := h.mutex t
  refine h.goto call (by simp) (by simp) (by simp) (fun hc => ?_) hbefore ?_ (fun o' ho' => ?_) ?_
  · simpa using hmutex (hholds hc)
  · rcases hcall with rfl | rfl <;> exact id
  · obtain rfl : o = o' := by rcases hcall with rfl | rfl <;> simpa [Call.Yields] using ho'
    exact hobj
  · rcases hcall with rfl | rfl <;> simp [Call.YieldsNull]

theorem missedBehind (h : s.Once slot) {f : Option ℕ} (hcall : s.calls t = .check f)
    (hready : slot.ready = none) : (s.goto t (.factory f)).Once slot := by
  have hholds : (s.calls t).Holds := by rw [hcall]; trivial
  have hobj : slot.obj = none := h.ready_eq_obj ▸ hready
  -- nobody else builds, and this call does not build yet
  have hnone : s.instances = slot.obj.toList := by
    refine h.settled fun t' ht' => ?_
    by_cases heq : t' = t
    · rw [heq, hcall] at ht'
      exact ht'
    · exact h.not_builds hholds heq ht'
  have hempty : s.built.reduceOption = [] := by
    rw [hobj] at hnone
    exact hnone
  exact (h.holder hholds (.factory f) rfl rfl hobj (fun _ => ⟨hobj, hempty⟩)
    (fun hc => absurd trivial hc) (fun o => False.elim) id).congr h.slot_eq rfl rfl

theorem failed (h : s.Once slot) {f : Option ℕ} (hcall : s.calls t = .factory f)
    (e : NexusError) : (s.goto t (.unlock false (.error e))).Once slot := by
  have hholds : (s.calls t).Holds := by rw [hcall]; trivial
  obtain ⟨hobj, hinstances⟩ := h.builds t (by rw [hcall]; trivial)
  have hempty : s.built.reduceOption = slot.obj.toList := by
    rw [hcall] at hinstances
    rw [hobj]
    exact hinstances
  exact (h.holder hholds (.unlock false (.error e)) rfl rfl hobj False.elim
    (fun _ => hempty) (fun o ho => by simp [Call.Yields] at ho)
    (by simp [Call.YieldsNull])).congr h.slot_eq rfl rfl

theorem returned (h : s.Once slot) {f : Option ℕ} (hcall : s.calls t = .factory f)
    (obj : Option Instance) :
    ({ s with built := s.built ++ [obj] }.goto t (.store obj)).Once slot := by
  have hholds : (s.calls t).Holds := by rw [hcall]; trivial
  obtain ⟨hobj, hinstances⟩ := h.builds t (by rw [hcall]; trivial)
  have hlast : (s.built ++ [obj]).reduceOption = obj.toList := by
    rw [List.reduceOption_append, List.reduceOption_singleton]
    rw [hcall] at hinstances
    exact congrArg (· ++ obj.toList) hinstances
  exact (h.holder hholds (.store obj) rfl rfl hobj (fun _ => ⟨hobj, hlast⟩)
    (fun hc => absurd trivial hc) (fun o => False.elim) id).congr h.slot_eq rfl rfl

theorem stored (h : s.Once slot) {obj : Option Instance} (hcall : s.calls t = .store obj)
    (now : ℤ) :
    ({ s with slot := some ((slot.store now obj).buildHandle now) }.goto t
      (.unlock true (.ok obj))).Once ((slot.store now obj).buildHandle now) := by
  have hholds : (s.calls t).Holds := by rw [hcall]; trivial
  obtain ⟨hobj, hinstances⟩ := h.builds t (by rw [hcall]; trivial)
  rw [hcall, instances] at hinstances
  refine (h.holder hholds (.unlock true (.ok obj)) ?_ ?_ hobj False.elim (fun _ => ?_) ?_
    ?_).congr rfl rfl rfl
  · simp [Slot.store]
  · simp [Slot.store]
  · simpa [Slot.store, Call.newObj] using hinstances
  · intro o ho
    simpa [Slot.store, Call.Yields] using ho
  · simp [Call.YieldsNull]

theorem unlocked (h : s.Once slot) {own : Bool} {result : Except NexusError (Option Instance)}
    (hcall : s.calls t = .unlock own result) :
    ({ s with slot := some { slot with constructionMutex := none } }.goto t
      (.done own result)).Once { slot with constructionMutex := none } := by
  have hmutex := h.mutex t (by rw [hcall]; trivial)
  refine h.goto _ rfl rfl ?_ False.elim ?_ id ?_ ?_
  · intro t' hne hmutex'
    exact absurd (Option.some.inj (hmutex'.symm.trans hmutex)) hne
  · simp [hcall, Call.Builds]
  · intro o ho
    exact h.yields t o (by rw [hcall]; exact ho)
  · have hnull := h.yieldsNull t
    rw [hcall] at hnull
    exact hnull

theorem moves (h : s.Once slot) {a : Section} (hmoves : s.Moves t a s') :
    ∃ slot', s'.Once slot' := by
  have hslot_eq := h.slot_eq
  cases hmoves with
  | began hcall =>
    have hbefore : ¬ (s.calls t).Builds := by
      rcases hcall with hcall | ⟨own, result, hcall⟩ <;> simp [hcall, Call.Builds]
    exact ⟨slot, (h.quiet (.inl rfl) hbefore).congr rfl rfl rfl⟩
  | refused now hcall hslot => simp [hslot_eq] at hslot
  | found now slot' o hcall hslot hready =>
    obtain rfl := Option.some.inj (hslot_eq.symm.trans hslot)
    exact ⟨_, h.found hready (.inl rfl) False.elim (by simp [hcall, Call.Builds])⟩
  | missed now slot' hcall hslot hready =>
    exact ⟨slot, h.quiet (.inr (.inl rfl)) (by simp [hcall, Call.Builds])⟩
  | lost hcall hslot => simp [hslot_eq] at hslot
  | copied slot' hcall hslot =>
    exact ⟨slot, h.quiet (.inr (.inr ⟨_, rfl⟩)) (by simp [hcall, Call.Builds])⟩
  | locked f slot' hcall hslot hfree =>
    obtain rfl := Option.some.inj (hslot_eq.symm.trans hslot)
    refine ⟨_, h.goto _ rfl rfl ?_ (fun _ => rfl) ?_ id (fun o => False.elim) id⟩
    · intro t' _ hmutex
      rw [hfree] at hmutex
      cases hmutex
    · simp [hcall, Call.Builds]
  | foundBehind now f slot' o hcall hslot hready =>
    obtain rfl := Option.some.inj (hslot_eq.symm.trans hslot)
    refine ⟨_, h.found hready (.inr rfl) (fun _ => ?_) (by simp [hcall, Call.Builds])⟩
    rw [hcall]
    trivial
  | missedBehind now f hcall hready => exact ⟨slot, h.missedBehind hcall (hready slot hslot_eq)⟩
  | failed outcome f e hcall => exact ⟨slot, h.failed hcall e⟩
  | returned f obj hcall horigin => exact ⟨slot, h.returned hcall obj⟩
  | dropped now obj hcall hslot => simp [hslot_eq] at hslot
  | stored now obj slot' hcall hslot =>
    obtain rfl := Option.some.inj (hslot_eq.symm.trans hslot)
    exact ⟨_, h.stored hcall now⟩
  | unlocked own result slot' hcall hslot =>
    obtain rfl := Option.some.inj (hslot_eq.symm.trans hslot)
    exact ⟨_, h.unlocked hcall⟩

/-- No step but a registration can undo it: a sweep leaves the slot alone. -/
theorem step (h : s.Once slot) {a : Action τ} (ha : a.KeepsRegistration)
    (hstep : s.step a = some s') : ∃ slot', s'.Once slot' := by
  cases a with
  | get t a => exact h.moves (moves_of_getStep hstep)
  | registerFactory lt => exact ha.elim
  | registerObject serial lt now => exact ha.elim
  | sweep now useCount =>
    obtain rfl := Option.some.inj hstep
    have hsweep : slot.sweep now useCount = some slot := by
      rcases h.lt with hlt | hlt <;> simp [Slot.sweep, hlt]
    exact ⟨slot, h.congr (by simp [h.slot_eq, hsweep]) rfl rfl⟩

omit [DecidableEq τ] in
theorem oneInstance (h : s.Once slot) : s.OneInstance := by
  have hobj : ∀ o, slot.obj = some o → s.instances = [o] := by
    intro o ho
    have hinstances := h.settled fun t ht => by
      rw [(h.builds t ht).1] at ho
      cases ho
    rw [hinstances, ho]
    rfl
  refine ⟨?_, fun t own result hdone => ⟨fun o ho => ?_, fun hnone => ?_⟩⟩
  · by_cases hbuilds : ∃ t, (s.calls t).Builds
    · obtain ⟨t, ht⟩ := hbuilds
      rw [(h.builds t ht).2]
      exact Option.length_toList_le
    · rw [h.settled (not_exists.mp hbuilds)]
      exact Option.length_toList_le
  · exact hobj o (h.yields t o (by rw [hdone, ho]; rfl))
  · by_contra hown
    refine h.yieldsNull t ?_
    rw [hdone, hnone]
    exact ⟨by simpa using hown, rfl⟩

end Once

omit [DecidableEq τ] in
theorem once_registeredOnce {lt : Lifetime} (hlt : lt = .immortal ∨ lt = .resettable) :
    (registeredOnce lt : World τ).Once (Nexus.registerFactory 0 lt none) where
  slot_eq := rfl
  lt := hlt
  mutex _ := False.elim
  builds _ := False.elim
  settled _ := rfl
  yields _ _ := False.elim
  yieldsNull _ := id

/-- Of an `Immortal` or `Resettable` service that is registered once, one instance at most is
ever built, and every `get` returns it; a `get` returns a null pointer only if the factory
has returned that to it. -/
theorem oneInstance_always {lt : Lifetime} (hlt : lt = .immortal ∨ lt = .resettable)
    {actions : List (Action τ)} (hactions : ∀ a ∈ actions, a.KeepsRegistration) {s : World τ}
    (h : run step (registeredOnce lt) actions = some s) :
    Always step OneInstance (registeredOnce lt) actions := by
  have hguard : Guarded step (fun _ a => a.KeepsRegistration) (registeredOnce lt) actions :=
    guarded_of_forall fun a ha _ => hactions a ha
  refine always_of_guarded (I := fun s => ∃ slot, s.Once slot)
    ⟨_, once_registeredOnce hlt⟩ ?_ ?_ h hguard
  · rintro s a t ⟨slot, hs⟩ ha hstep
    exact hs.step ha hstep
  · rintro s ⟨slot, hs⟩
    exact hs.oneInstance

/-- Two threads find the slot empty; the factory throws to the first one. -/
def triedAgain : List (Action ℕ) :=
  [Action.get 0 .begin, .get 1 .begin, .get 1 (.fastPath 1), .get 1 .readFactory] ++
    [Action.get 0 (.fastPath 1), .get 0 .readFactory, .get 0 .lock, .get 0 (.doubleCheck 2),
      .get 0 (.callFactory .throws), .sweep 3 (fun _ => 1), .get 0 .unlock] ++
    [Action.get 1 .lock, .get 1 (.doubleCheck 4)] ++ fromFactory 1 (some ⟨0, 7⟩)

theorem oneInstance_always_triedAgain :
    (run step (registeredOnce .immortal) triedAgain).isSome ∧
      Always step OneInstance (registeredOnce .immortal) triedAgain :=
  ⟨rfl, oneInstance_always (.inl rfl) (by simp [triedAgain, fromFactory, Action.KeepsRegistration])
    rfl⟩

/-- The factory has returned once at most, and every `get` returns what it has returned. -/
def ReturnedOnce (s : World τ) : Prop :=
  s.built.length ≤ 1 ∧ ∀ t own result, s.calls t = .done own (.ok result) → s.built = [result]

/-- To a factory that returns a null pointer `get` comes back. -/
theorem null_built_twice :
    ¬ Always step ReturnedOnce (registeredOnce .immortal)
      (untilFactory 0 ++ fromFactory 0 none ++ untilFactory 1 ++ fromFactory 1 none) := by
  intro h
  have hlength : 2 ≤ 1 := (h _ List.prefix_rfl _ rfl).1
  omega

end World

end Demiplane.Nexus

import Demiplane.Postgres.Ownership

/-!
What is still in flight when `shutdown()` runs. The critical section of
`shutdown()` empties the pool, and from then on no holder is assigned and none
is taken out of the free list. Two kinds of calls can still come through with
a holder. A call of `try_acquire` or `acquire` that is connecting does not look
at `shutdown_` again before it registers its holder, which
`initiate_async_acquire` does; and a waiter that was served but has not woken up
returns the holder it was assigned, although the pool has dropped it.
-/

namespace Demiplane.Postgres

open Transition
open PoolConfig (minimal single)

/-- The critical section of `shutdown()` is over. -/
def Closing.cleared : Closing → Bool
  | .idle | .exchanged => false
  | .posting _ | .returned => true

/-- The acquiring call a step belongs to. -/
def Action.caller : Action → Option ℕ
  | .call c _ | .lock c | .relock c _ | .wake c _ => some c
  | _ => none

namespace Pool

theorem shutdown_of_cleared {st : Pool} (hf : Flagged st) (hc : st.closing.cleared = true) :
    st.isShutdown = true := by
  refine Bool.of_not_eq_false fun hs => ?_
  rw [hf.mp hs] at hc
  cases hc

/-! ### Nothing comes back -/

/-- After `shutdown()` has returned there are no holders. -/
def Emptied (st : Pool) : Prop := st.closing = .returned → st.holders = []

/-- A call of `try_acquire` or `acquire` that returns after `shutdown()` has
returned does so without a holder. -/
def ReturnsEmpty (cfg : PoolConfig.Valid) (st : Pool) (a : Action) : Prop :=
  st.closing = .returned → ∀ c ∈ a.caller, ∀ st', st.step cfg a = some st' →
    ∀ x, st'.calls c ≠ .holding x

/-- A call of `try_acquire` or `acquire` that has connected has the mutex again
before the pool is cleared, and a served waiter wakes up before `shutdown()`
returns. -/
def ComesThroughInTime (st : Pool) : Action → Prop
  | .relock c true => ∀ k, st.calls c = .creating k → k.isAsync = false →
      st.closing.cleared = false
  | .wake c _ => ∀ timed x, st.calls c = .waiting timed (some x) → st.closing ≠ .returned
  | _ => True

/-- From the critical section of `shutdown()` on there are no holders. -/
def Drained (st : Pool) : Prop := st.closing.cleared = true → st.holders = []

theorem drained_start (cfg : PoolConfig.Valid) (attempts : ℕ → Bool) :
    Drained (start cfg attempts) := by
  obtain ⟨n, -, hidle⟩ := start_eq cfg attempts
  rw [hidle]
  intro hc
  cases hc

theorem drained_step {cfg : PoolConfig.Valid} {st st' : Pool} {a : Action} (hf : Flagged st)
    (h : Drained st) (hg : ComesThroughInTime st a) (hstep : Step cfg st a st') : Drained st' := by
  cases hstep with
  | @relockCreated c k hc hs =>
      intro hcleared
      have hcleared : st.closing.cleared = true := hcleared
      cases hk : k.isAsync with
      | true => exact absurd ⟨hk, shutdown_of_cleared hf hcleared⟩ hs
      | false => exact absurd hcleared (by simp [hg k hc hk])
  | @resetDropped c x hc hs hh =>
      intro hcleared
      exact absurd hs (by simp [shutdown_of_cleared hf hcleared])
  | exchanged hc =>
      intro hcleared
      cases hcleared
  | cleared hc => exact fun _ => rfl
  | postedAborted hc => exact fun _ => h (by rw [hc]; rfl)
  | shutdownReturned hc => exact fun _ => h (by rw [hc]; rfl)
  | _ => exact h

/-- The calls that come too late find the flag set. -/
theorem returnsEmpty_of_comesThroughInTime {cfg : PoolConfig.Valid} {st : Pool} {a : Action}
    (hf : Flagged st) (hg : ComesThroughInTime st a) : ReturnsEmpty cfg st a := by
  intro hreturned c hc st' hstep x
  have hcleared : st.closing.cleared = true := by rw [hreturned]; rfl
  have hshut := shutdown_of_cleared hf hcleared
  have habort (k : Kind) : (st.abort k c).calls c ≠ .holding x := by
    cases hk : k.isAsync <;> simp [abort, hk]
  cases step_cases hstep with
  | callAborted hidle hs | lockAborted hidle hs | relockAborted hidle hk hs =>
      obtain rfl := Option.some.inj hc
      exact habort _
  | callEntered hidle hs | lockTook hentered hs hf | lockCreating hentered hs hf hcap
  | lockQueued hentered hs hf hcap => exact absurd hs (by simp [hshut])
  | @relockCreated _ k hcreating hs =>
      cases hk : k.isAsync with
      | true => exact absurd ⟨hk, hshut⟩ hs
      | false => exact absurd hcleared (by simp [hg k hcreating hk])
  | @relockQueued _ k hcreating hs =>
      obtain rfl := Option.some.inj hc
      cases k <;> simp [enqueue, Kind.parked]
  | wakeReady hready => exact absurd hreturned (hg _ _ hready)
  | wakeLeft hwaiting hs =>
      obtain rfl := Option.some.inj hc
      simp [leave, setCall]
  | _ => cases hc

/-- Once it has cleared the pool, `shutdown()` posts the handlers it has
collected and returns; the holders stay as they are. -/
theorem shutdown_returns (cfg : PoolConfig.Valid) (st : Pool) (hc : st.closing.cleared = true) :
    ∃ bs st', run (step cfg) st bs = some st' ∧ st'.closing = .returned ∧
      st'.holders = st.holders := by
  cases hclosing : st.closing with
  | posting cs =>
      clear hc
      induction cs generalizing st with
      | nil =>
          exact ⟨[.returnShutdown], { st with closing := .returned }, by simp [run, step, hclosing],
            rfl, rfl⟩
      | cons c cs ih =>
          obtain ⟨bs, st', hrun, hreturned, hholders⟩ := ih { st with
            closing := .posting cs
            handlers := st.handlers ++ [⟨c, .operationAborted, none⟩] } rfl
          refine ⟨.postAborted :: bs, st', ?_, hreturned, hholders⟩
          simpa [run, step, hclosing] using hrun
  | returned => exact ⟨[], st, rfl, hclosing, rfl⟩
  | _ => simp [hclosing, Closing.cleared] at hc

/-- A run whose next step comes too late goes on to one in which the pool has
holders or lends one after `shutdown()` has returned. -/
theorem not_final_of_late {cfg : PoolConfig.Valid} {s₀ st st' : Pool} {as : List Action}
    {a : Action} (h : run (step cfg) s₀ as = some st) (hstep : st.step cfg a = some st')
    (hlate : ¬ ComesThroughInTime st a) :
    ∃ bs st'', run (step cfg) s₀ (as ++ a :: bs) = some st'' ∧
      ¬ (Always (step cfg) Emptied s₀ (as ++ a :: bs) ∧
        Guarded (step cfg) (ReturnsEmpty cfg) s₀ (as ++ a :: bs)) := by
  have hsnoc (bs : List Action) : run (step cfg) s₀ (as ++ a :: bs) = run (step cfg) st' bs := by
    simp [run_append, h, run, hstep]
  cases step_cases hstep with
  | @relockCreated c k hc hs =>
      -- the pool has a holder from here on, and `shutdown()` can finish
      simp only [ComesThroughInTime, not_forall, Bool.not_eq_false] at hlate
      obtain ⟨k', -, -, hcleared⟩ := hlate
      obtain ⟨bs, st'', hrun, hreturned, hholders⟩ := shutdown_returns cfg
        ({ st with
          created := st.created + 1
          holders := st.holders ++ [st.fresh]
          fresh := st.fresh + 1 }.deliver k c st.fresh) hcleared
      refine ⟨bs, st'', (hsnoc bs).trans hrun, fun hfinal => ?_⟩
      have hempty := hfinal.1 _ List.prefix_rfl st'' ((hsnoc bs).trans hrun) hreturned
      rw [hholders] at hempty
      simp [deliver] at hempty
  | @wakeReady c expired timed x hready =>
      refine ⟨[], _, hsnoc [], fun hfinal => ?_⟩
      simp only [ComesThroughInTime, not_forall, not_not] at hlate
      obtain ⟨-, -, -, hreturned⟩ := hlate
      have hempty := ((guarded_snoc h).mp hfinal.2).2 hreturned c rfl _ hstep x
      simp at hempty
  | @relockAborted c k connected hc hk hs =>
      refine absurd ?_ hlate
      cases connected with
      | false => trivial
      | true =>
          intro k' hc' hk'
          obtain rfl : k = k' := by simpa using hc.symm.trans hc'
          simp [hk] at hk'
  | @wakeLeft c expired timed hwaiting hs =>
      refine absurd (fun timed' x hready => ?_) hlate
      rw [hwaiting] at hready
      cases hready
  | _ => exact absurd trivial hlate

/-- In every interleaving in which every call comes through in time,
`shutdown()` is final: once it has returned there are no holders, and a call
that returns later returns without one. A run whose next step comes too late
goes on to one in which this fails. -/
theorem shutdown_final_of_comesThroughInTime (cfg : PoolConfig.Valid) (attempts : ℕ → Bool)
    (as : List Action) (st : Pool) (h : run (step cfg) (start cfg attempts) as = some st) :
    (Guarded (step cfg) ComesThroughInTime (start cfg attempts) as →
      Always (step cfg) Emptied (start cfg attempts) as ∧
        Guarded (step cfg) (ReturnsEmpty cfg) (start cfg attempts) as) ∧
      ∀ a st', st.step cfg a = some st' → ¬ ComesThroughInTime st a →
        ∃ bs st'', run (step cfg) (start cfg attempts) (as ++ a :: bs) = some st'' ∧
          ¬ (Always (step cfg) Emptied (start cfg attempts) (as ++ a :: bs) ∧
            Guarded (step cfg) (ReturnsEmpty cfg) (start cfg attempts) (as ++ a :: bs)) := by
  refine ⟨fun hg => ⟨?_, ?_⟩, fun a st' hstep hlate => not_final_of_late h hstep hlate⟩
  · refine always_of_guarded (I := fun st => Flagged st ∧ Drained st)
      ⟨flagged_start cfg attempts, drained_start cfg attempts⟩ ?_ ?_ h hg
    · intro st a st' hi hga hstep
      have hcases := step_cases hstep
      exact ⟨flagged_step hi.1 hcases, drained_step hi.1 hi.2 hga hcases⟩
    · exact fun st hi hreturned => hi.2 (by rw [hreturned]; rfl)
  · exact hg.mono (flagged_start cfg attempts)
      (fun _ _ _ hf _ hstep => flagged_step hf (step_cases hstep))
      fun _ _ hf hga => returnsEmpty_of_comesThroughInTime hf hga

/-- One call takes the only holder and another connects; then the pool is shut
down, and a third call comes. -/
def closedAfterConnecting : List Action :=
  [.call 0 .tryAcquire, .lock 0, .call 1 (.acquire false), .lock 1, .relock 1 true, .exchange,
    .clear, .returnShutdown, .call 2 .tryAcquire]

theorem shutdown_final_closedAfterConnecting :
    ∃ st, run (step minimal) (start minimal fun _ => true) closedAfterConnecting = some st ∧
      Guarded (step minimal) ComesThroughInTime (start minimal fun _ => true)
        closedAfterConnecting ∧
      st.closing = .returned ∧ st.holders = [] ∧ st.calls 2 = .returned ∧
      Guarded (step minimal) (ReturnsEmpty minimal) (start minimal fun _ => true)
        closedAfterConnecting := by
  have hg : Guarded (step minimal) ComesThroughInTime (start minimal fun _ => true)
      closedAfterConnecting := by
    iterate 4 refine (guarded_cons rfl).mpr ⟨trivial, ?_⟩
    refine (guarded_cons rfl).mpr ⟨fun _ _ _ => rfl, ?_⟩
    iterate 4 refine (guarded_cons rfl).mpr ⟨trivial, ?_⟩
    exact fun a ha => absurd ha List.not_mem_nil
  have hfinal := (shutdown_final_of_comesThroughInTime minimal (fun _ => true)
    closedAfterConnecting _ rfl).1 hg
  exact ⟨_, rfl, hg, rfl, hfinal.1 _ List.prefix_rfl _ rfl rfl, rfl, hfinal.2⟩

/-- A call is connecting while the pool is shut down. -/
def closedWhileConnecting : List Action :=
  [.call 0 .tryAcquire, .lock 0, .call 1 .tryAcquire, .lock 1, .exchange, .clear,
    .returnShutdown]

theorem lateConnection_not_final :
    ∃ st st', run (step minimal) (start minimal fun _ => true) closedWhileConnecting = some st ∧
      st.closing = .returned ∧ st.step minimal (.relock 1 true) = some st' ∧
      st'.holders = [1] ∧ st'.calls 1 = .holding 1 :=
  ⟨_, _, rfl, rfl, rfl, rfl, rfl⟩

/-! ### Handed over and dropped -/

/-- A waiter that wakes up with `ready` set finds the holder it is assigned
among the holders of the pool. -/
def UsesMember (st : Pool) : Action → Prop
  | .wake c _ => ∀ timed x, st.calls c = .waiting timed (some x) → x ∈ st.holders
  | _ => True

/-- A served waiter wakes up before `shutdown()` clears the pool. -/
def WakesBeforeClear (st : Pool) : Action → Prop
  | .wake c _ => ∀ timed x, st.calls c = .waiting timed (some x) → st.closing.cleared = false
  | _ => True

/-- Assigned holders are among the holders of the pool until it is cleared,
and not after. They are never the one that is registered next. -/
structure Assigned (st : Pool) : Prop where
  older : ∀ {c timed x}, st.calls c = .waiting timed (some x) → x < st.fresh
  member : ∀ {c timed x}, st.calls c = .waiting timed (some x) →
    (x ∈ st.holders ↔ st.closing.cleared = false)

theorem Owned.assigned {st : Pool} (h : Owned st) (hc : st.closing = .idle) : Assigned st := by
  have hbooked {c : ℕ} {timed : Bool} {x : Holder} (hx : st.calls c = .waiting timed (some x)) :
      x ∈ st.holders := h.held.booked (at_of_place (c := c) (q := .assigned c) (by rw [hx]; rfl))
  exact ⟨fun hx => h.fresh _ (hbooked hx), fun hx => iff_of_true (hbooked hx) (by rw [hc]; rfl)⟩

namespace Assigned

variable {st st' : Pool}

/-- Nothing is assigned in a step that leaves the pool as open as it was. -/
theorem keep (h : Assigned st)
    (hcalls : ∀ {c timed x}, st'.calls c = .waiting timed (some x) →
      st.calls c = .waiting timed (some x))
    (hholders : st'.holders = st.holders) (hfresh : st'.fresh = st.fresh)
    (hcleared : st'.closing.cleared = st.closing.cleared) : Assigned st' := by
  refine ⟨fun hx => ?_, fun hx => ?_⟩
  · rw [hfresh]
    exact h.older (hcalls hx)
  · rw [hholders, hcleared]
    exact h.member (hcalls hx)

/-- One call goes on, to something other than an assignment. -/
theorem goes (h : Assigned st) {c : ℕ} {v : Call} (hv : ∀ timed x, v ≠ .waiting timed (some x))
    (hcalls : st'.calls = Function.update st.calls c v)
    (hholders : st'.holders = st.holders) (hfresh : st'.fresh = st.fresh)
    (hcleared : st'.closing.cleared = st.closing.cleared) : Assigned st' := by
  refine h.keep (fun {r timed x} hx => ?_) hholders hfresh hcleared
  rw [hcalls] at hx
  by_cases hrc : r = c
  · rw [hrc, Function.update_self] at hx
    exact absurd hx (hv timed x)
  · rwa [Function.update_of_ne hrc] at hx

/-- A holder is registered for a call. -/
theorem register (h : Assigned st) {k : Kind} {c : ℕ} :
    Assigned ({ st with
      created := st.created + 1
      holders := st.holders ++ [st.fresh]
      fresh := st.fresh + 1 }.deliver k c st.fresh) := by
  have hcalls {r : ℕ} {timed : Bool} {x : Holder}
      (hx : Function.update st.calls c (if k.isAsync then .initiated else .holding st.fresh) r =
        .waiting timed (some x)) : st.calls r = .waiting timed (some x) := by
    by_cases hrc : r = c
    · rw [hrc, Function.update_self] at hx
      split at hx <;> cases hx
    · rwa [Function.update_of_ne hrc] at hx
  refine ⟨fun hx => Nat.lt_succ_of_lt (h.older (hcalls hx)), fun hx => ?_⟩
  have hne := Nat.ne_of_lt (h.older (hcalls hx))
  have hmember := h.member (hcalls hx)
  simpa [deliver, hne] using hmember

end Assigned

/-- After the flag is set no holder is assigned and none is dropped one by
one. -/
theorem assigned_step_of_shutdown {cfg : PoolConfig.Valid} {st st' : Pool} {a : Action}
    (h : Assigned st) (hstep : Step cfg st a st') (hs' : st'.isShutdown = true) :
    Assigned st' := by
  cases hstep with
  | @callAborted c k hc hs | @lockAborted c k hc hs | @relockAborted c k connected hc hk hs =>
      refine h.goes (c := c) (v := if k.isAsync then .initiated else .returned) ?_ rfl rfl rfl rfl
      intro timed x
      split <;> simp
  | callEntered hc hs | lockTook hc hs hf | lockCreating hc hs hf hcap | lockQueued hc hs hf hcap
  | resetParked hc hs hpop | resetSync hc hs hpop | resetAsync hc hs hpop
  | resetDropped hc hs hh | resetUnknown hc hs hh =>
      exact absurd (hs.symm.trans hs') Bool.false_ne_true
  | relockCreated hc hs => exact h.register
  | @relockQueued c k hc hs =>
      exact h.goes (c := c) (v := k.parked) (by cases k <;> simp [Kind.parked]) rfl rfl rfl rfl
  | @wakeReady c expired timed x hc =>
      exact h.goes (c := c) (v := .holding x) (by simp) rfl rfl rfl rfl
  | @wakeLeft c expired timed hc hs =>
      exact h.goes (c := c) (v := .returned) (by simp) rfl rfl rfl rfl
  | @ran c p hp =>
      refine h.goes (c := c) ?_ rfl rfl rfl rfl
      intro timed x
      split <;> simp
  | @resetLate c x alive hc hs =>
      exact h.goes (c := c) (v := .returned) (by simp) rfl rfl rfl rfl
  | exchanged hc => exact h.keep id rfl rfl (by rw [hc]; rfl)
  | cleared hc =>
      refine ⟨h.older, fun hx => iff_of_false List.not_mem_nil ?_⟩
      simp [clear, Closing.cleared]
  | postedAborted hc => exact h.keep id rfl rfl (by rw [hc]; rfl)
  | shutdownReturned hc => exact h.keep id rfl rfl (by rw [hc]; rfl)
  | _ => exact h.keep id rfl rfl rfl

theorem Invariant.assigned {st : Pool} (h : Invariant st) (hs : st.isShutdown = false) :
    Assigned st :=
  (h.owned hs).assigned (h.coherent.flagged.mp hs)

theorem assigned_step {cfg : PoolConfig.Valid} {st st' : Pool} {a : Action}
    (hinv : Invariant st) (h : Assigned st) (hstep : Step cfg st a st') : Assigned st' := by
  cases hs' : st'.isShutdown with
  | true => exact assigned_step_of_shutdown h hstep hs'
  | false => exact (invariant_step hinv hstep).assigned hs'

theorem usesMember_iff {st : Pool} (h : Assigned st) (a : Action) :
    UsesMember st a ↔ WakesBeforeClear st a := by
  cases a with
  | wake c expired =>
      refine forall_congr' fun timed => forall_congr' fun x => forall_congr' fun hx => ?_
      exact h.member hx
  | _ => exact Iff.rfl

/-- In every interleaving, every waiter that leaves its wait with `ready` set
is assigned a holder of the pool exactly when every served waiter wakes up
before `shutdown()` clears the pool. -/
theorem usesMember_iff_wakesBeforeClear (cfg : PoolConfig.Valid) (attempts : ℕ → Bool)
    (as : List Action) :
    Guarded (step cfg) UsesMember (start cfg attempts) as ↔
      Guarded (step cfg) WakesBeforeClear (start cfg attempts) as := by
  have hinit : Invariant (start cfg attempts) ∧ Assigned (start cfg attempts) := by
    have hinv := invariant_start cfg attempts
    refine ⟨hinv, hinv.assigned ?_⟩
    obtain ⟨n, -, hidle⟩ := start_eq cfg attempts
    rw [hidle]
    rfl
  have hstep (st : Pool) (a : Action) (st' : Pool) (hi : Invariant st ∧ Assigned st)
      (hst : st.step cfg a = some st') : Invariant st' ∧ Assigned st' :=
    ⟨invariant_step hi.1 (step_cases hst), assigned_step hi.1 hi.2 (step_cases hst)⟩
  constructor
  · intro hg
    exact hg.mono hinit (fun st a st' hi _ => hstep st a st' hi) fun _ a hi =>
      (usesMember_iff hi.2 a).mp
  · intro hg
    exact hg.mono hinit (fun st a st' hi _ => hstep st a st' hi) fun _ a hi =>
      (usesMember_iff hi.2 a).mpr

/-- The borrower of the only holder releases it to a waiter, and the pool is
shut down. -/
def servedThenClosed : List Action :=
  [.call 0 .tryAcquire, .lock 0, .call 1 (.acquire false), .lock 1, .reset 0 true, .exchange,
    .clear]

theorem servedThenClosed_dropped :
    ∃ st, run (step single) (start single fun _ => true) servedThenClosed = some st ∧
      st.calls 1 = .waiting false (some 0) ∧ 0 ∉ st.holders ∧
      (st.step single (.wake 1 false)).isSome :=
  ⟨_, rfl, rfl, List.not_mem_nil, rfl⟩

end Pool

end Demiplane.Postgres

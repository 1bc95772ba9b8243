import Demiplane.Postgres.Coherence

/-!
Completion handlers over a run. A handler that has not been posted is with
`initiate_async_acquire`, in a queued waiter, on its way to `post` or among
the handlers `shutdown()` has collected; every step that takes it from one of
these puts it into another or posts it. So the number of times it is found
plus the number of times it was posted is the number of calls, which is one.
-/

namespace Demiplane.Postgres

open Transition
open PoolConfig (single)

/-- The asynchronous calls of a run. -/
def asyncCalls : List Event → List ℕ
  | [] => []
  | .called c (.asyncAcquire _) :: tr => c :: asyncCalls tr
  | _ :: tr => asyncCalls tr

/-- The handlers posted in a run, with what they will be called with. -/
def completions : List Event → List Completion
  | [] => []
  | .posted p :: tr => p :: completions tr
  | _ :: tr => completions tr

@[simp] theorem asyncCalls_append (tr us : List Event) :
    asyncCalls (tr ++ us) = asyncCalls tr ++ asyncCalls us := by
  induction tr with
  | nil => rfl
  | cons e tr ih =>
      cases e with
      | called c k => cases k <;> simp [asyncCalls, ih]
      | _ => simpa [asyncCalls] using ih

@[simp] theorem completions_append (tr us : List Event) :
    completions (tr ++ us) = completions tr ++ completions us := by
  induction tr with
  | nil => rfl
  | cons e tr ih => cases e <;> simp [completions, ih]

/-- `initiate_async_acquire` has not ended its critical sections. -/
def Call.initiates : Call → ℕ
  | .entered k | .creating k => if k.isAsync then 1 else 0
  | _ => 0

/-- An acquiring function has been called. -/
def Call.started : Call → ℕ
  | .idle => 0
  | _ => 1

namespace Pool

/-- How often the handler of call `c` is found on its way to being posted. -/
def unposted (st : Pool) (c : ℕ) : ℕ :=
  (st.calls c).initiates + st.waiters.count (.async c) + st.posts.countP (·.2.call = c) +
    st.closing.calls.count c

/-- Every handler of a call is posted or on its way. -/
structure Accounted (st : Pool) (tr : List Event) : Prop where
  balance : ∀ c, st.unposted c + (completions tr).countP (·.call = c) = (asyncCalls tr).count c
  once : ∀ c, (asyncCalls tr).count c ≤ (st.calls c).started

theorem accounted_start (cfg : PoolConfig.Valid) (attempts : ℕ → Bool) :
    Accounted (start cfg attempts) [] := by
  obtain ⟨n, -, hidle⟩ := start_eq cfg attempts
  rw [hidle]
  exact ⟨fun _ => rfl, fun _ => le_rfl⟩

/-- A step that moves handlers around and posts those of `us`. -/
theorem Accounted.moves {st st' : Pool} {tr us : List Event} (h : Accounted st tr)
    (hcalls : asyncCalls us = [])
    (hbalance : ∀ r, st'.unposted r + (completions us).countP (·.call = r) = st.unposted r)
    (hstarted : ∀ r, (st.calls r).started ≤ (st'.calls r).started) : Accounted st' (tr ++ us) where
  balance r := by
    have := h.balance r
    have := hbalance r
    rw [completions_append, asyncCalls_append, hcalls, List.append_nil, List.countP_append]
    omega
  once r := by
    rw [asyncCalls_append, hcalls, List.append_nil]
    exact (h.once r).trans (hstarted r)

/-- A step that only moves handlers around. -/
theorem Accounted.quiet {st st' : Pool} {tr us : List Event} (h : Accounted st tr)
    (hcalls : asyncCalls us = []) (hcompletions : completions us = [])
    (hsame : ∀ r, st'.unposted r = st.unposted r)
    (hstarted : ∀ r, (st.calls r).started ≤ (st'.calls r).started) : Accounted st' (tr ++ us) :=
  h.moves hcalls (fun r => by rw [hcompletions, hsame]; rfl) hstarted

theorem started_update {calls : ℕ → Call} {c : ℕ} {v : Call} (hv : v.started = 1) (r : ℕ) :
    (calls r).started ≤ (Function.update calls c v r).started := by
  by_cases hrc : r = c
  · subst hrc
    rw [Function.update_self, hv]
    cases calls r <;> simp [Call.started]
  · rw [Function.update_of_ne hrc]

/-- A call goes on to `v`, handing its handler over for `post` if it had one. -/
theorem unposted_answer (st st' : Pool) {c : ℕ} {v : Call} {l : List (Poster × Completion)}
    (hv : v.initiates + l.length = (st.calls c).initiates) (hmine : ∀ p ∈ l, p.2.call = c)
    (hcalls : st'.calls = Function.update st.calls c v) (hposts : st'.posts = st.posts ++ l)
    (hwaiters : st'.waiters = st.waiters) (hclosing : st'.closing = st.closing) (r : ℕ) :
    st'.unposted r = st.unposted r := by
  rw [unposted, unposted, hcalls, hposts, hwaiters, hclosing, List.countP_append]
  by_cases hrc : r = c
  · subst hrc
    have hall : l.countP (·.2.call = r) = l.length :=
      List.countP_eq_length.mpr fun p hp => by simpa using hmine p hp
    rw [Function.update_self, hall]
    omega
  · have hnone : l.countP (·.2.call = r) = 0 :=
      List.countP_eq_zero.mpr fun p hp => by simp [hmine p hp, Ne.symm hrc]
    rw [Function.update_of_ne hrc, hnone, Nat.add_zero]

theorem unposted_enqueue (st : Pool) {c : ℕ} {k : Kind}
    (hc : (st.calls c).initiates = if k.isAsync then 1 else 0) (r : ℕ) :
    (st.enqueue k c).unposted r = st.unposted r := by
  simp only [unposted, enqueue, List.count_append]
  by_cases hrc : r = c
  · subst hrc
    rw [Function.update_self, hc]
    cases k with
    | tryAcquire => simp [Kind.parked, Kind.waiter, Kind.isAsync, Call.initiates]
    | acquire timed => simp [Kind.parked, Kind.waiter, Kind.isAsync, Call.initiates]
    | asyncAcquire bounded =>
        simp only [Kind.parked, Kind.waiter, Kind.isAsync, Call.initiates,
          List.count_singleton_self, if_true]
        omega
  · have hnone : (k.waiter c).count (.async r) = 0 := by
      cases k <;> simp [Kind.waiter, Ne.symm hrc]
    rw [Function.update_of_ne hrc, hnone, Nat.add_zero]

theorem unposted_abort (st : Pool) {c : ℕ} {k : Kind}
    (hc : (st.calls c).initiates = if k.isAsync then 1 else 0) (r : ℕ) :
    (st.abort k c).unposted r = st.unposted r := by
  refine unposted_answer st (st.abort k c) ?_ ?_ rfl rfl rfl rfl r
  · rw [hc]
    cases k.isAsync <;> rfl
  · cases k.isAsync <;> simp

theorem unposted_deliver (st : Pool) {c : ℕ} {k : Kind} (x : Holder)
    (hc : (st.calls c).initiates = if k.isAsync then 1 else 0) (r : ℕ) :
    (st.deliver k c x).unposted r = st.unposted r := by
  refine unposted_answer st (st.deliver k c x) ?_ ?_ rfl rfl rfl rfl r
  · rw [hc]
    cases k.isAsync <;> rfl
  · cases k.isAsync <;> simp

theorem unposted_setCall (st : Pool) {c : ℕ} {v : Call}
    (hv : v.initiates = (st.calls c).initiates) (r : ℕ) :
    (st.setCall c v).unposted r = st.unposted r :=
  unposted_answer st (st.setCall c v) (l := []) (by simpa using hv) (by simp) rfl
    (List.append_nil _).symm rfl rfl r

/-- A call of an acquiring function starts with its handler, if it has one. -/
theorem Accounted.call {st st' : Pool} {tr : List Event} {c : ℕ} {k : Kind}
    (h : Accounted st tr) (hc : st.calls c = .idle)
    (hmine : st'.unposted c = st.unposted c + if k.isAsync then 1 else 0)
    (hothers : ∀ r, r ≠ c → st'.unposted r = st.unposted r)
    (hcalls : ∀ r, r ≠ c → st'.calls r = st.calls r) (hstarted : (st'.calls c).started = 1) :
    Accounted st' (tr ++ [.called c k]) := by
  have hcount (r : ℕ) : (asyncCalls [.called c k]).count r =
      if r = c then if k.isAsync then 1 else 0 else 0 := by
    by_cases hrc : r = c
    · subst hrc
      cases k <;> simp [asyncCalls, Kind.isAsync]
    · cases k <;> simp [asyncCalls, hrc, Ne.symm hrc]
  have hzero : (asyncCalls tr).count c = 0 := by
    have := h.once c
    rw [hc] at this
    exact Nat.le_zero.mp this
  refine ⟨fun r => ?_, fun r => ?_⟩
  · have hr := h.balance r
    rw [completions_append, asyncCalls_append, List.count_append, hcount]
    simp only [completions, List.append_nil]
    by_cases hrc : r = c
    · subst hrc
      rw [hmine, if_pos rfl]
      omega
    · rw [hothers r hrc, if_neg hrc]
      omega
  · rw [asyncCalls_append, List.count_append, hcount]
    by_cases hrc : r = c
    · subst hrc
      rw [hzero, hstarted, if_pos rfl]
      split <;> decide
    · rw [if_neg hrc, hcalls r hrc]
      exact h.once r

theorem asyncCalls_enqueued (ws : List WaiterEntry) :
    asyncCalls (ws.map .enqueued) = [] ∧ completions (ws.map .enqueued) = [] := by
  induction ws with
  | nil => exact ⟨rfl, rfl⟩
  | cons w ws ih => exact ih

/-- Only calls and posts count; the other events are not about handlers. -/
theorem emit_quiet {cfg : PoolConfig.Valid} {st : Pool} {a : Action}
    (ha : (∀ c k, a ≠ .call c k) ∧ (∀ c, a ≠ .post c) ∧ a ≠ .postAborted) :
    asyncCalls (st.emit cfg a) = [] ∧ completions (st.emit cfg a) = [] := by
  have henq (c : ℕ) (ws : List WaiterEntry) :
      asyncCalls (.locked c :: ws.map .enqueued) = [] ∧
        completions (.locked c :: ws.map .enqueued) = [] := asyncCalls_enqueued ws
  cases a with
  | call c k => exact absurd rfl (ha.1 c k)
  | post c => exact absurd rfl (ha.2.1 c)
  | postAborted => exact absurd rfl ha.2.2
  | lock c =>
      simp only [emit]
      repeat' split
      all_goals first | exact ⟨rfl, rfl⟩ | exact henq c _
  | relock c connected =>
      simp only [emit]
      repeat' split
      all_goals first | exact ⟨rfl, rfl⟩ | exact asyncCalls_enqueued _
  | reset c alive =>
      cases alive with
      | false => exact ⟨rfl, rfl⟩
      | true =>
          simp only [emit]
          repeat' split
          · exact ⟨rfl, rfl⟩
          · cases popWaiter st.claimed st.waiters <;> exact ⟨rfl, rfl⟩
          · exact ⟨rfl, rfl⟩
  | wake c expired =>
      simp only [emit]
      repeat' split
      all_goals exact ⟨rfl, rfl⟩
  | timer c =>
      simp only [emit]
      split <;> exact ⟨rfl, rfl⟩
  | _ => exact ⟨rfl, rfl⟩

theorem accounted_step {cfg : PoolConfig.Valid} {st st' : Pool} {tr : List Event} {a : Action}
    (hcoh : Coherent st) (h : Accounted st tr) (hstep : Step cfg st a st') :
    Accounted st' (tr ++ st.emit cfg a) := by
  have hquiet (hsame : ∀ r, st'.unposted r = st.unposted r)
      (hstarted : ∀ r, (st.calls r).started ≤ (st'.calls r).started)
      (ha : (∀ c k, a ≠ .call c k) ∧ (∀ c, a ≠ .post c) ∧ a ≠ .postAborted) :
      Accounted st' (tr ++ st.emit cfg a) :=
    h.quiet (emit_quiet ha).1 (emit_quiet ha).2 hsame hstarted
  cases hstep with
  | @callAborted c k hc hs =>
      refine h.call hc ?_ (fun r hrc => ?_) (fun r hrc => Function.update_of_ne hrc _ _) ?_
      · simp only [unposted, abort, hc, Function.update_self, List.countP_append]
        cases k.isAsync with
        | true =>
            simp only [Call.initiates, if_true, List.countP_singleton, decide_true]
            omega
        | false => simp [Call.initiates]
      · simp only [unposted, abort, Function.update_of_ne hrc, List.countP_append]
        cases k.isAsync <;> simp [Ne.symm hrc]
      · simp only [abort, Function.update_self]
        split <;> rfl
  | @callEntered c k hc hs =>
      refine h.call hc ?_ (fun r hrc => ?_) (fun r hrc => Function.update_of_ne hrc _ _) ?_
      · simp only [unposted, setCall, hc, Function.update_self, Call.initiates]
        omega
      · simp only [unposted, setCall, Function.update_of_ne hrc]
      · rw [calls_setCall, Function.update_self]
        rfl
  | lockAborted hc hs =>
      exact hquiet (unposted_abort st (by rw [hc]; rfl)) (started_update (by split <;> rfl))
        (by simp)
  | @lockTook c k x rest hc hs hf =>
      exact hquiet (unposted_deliver { st with free := rest } x
        (by rw [show st.calls c = _ from hc]; rfl)) (started_update (by split <;> rfl)) (by simp)
  | lockCreating hc hs hf hcap =>
      exact hquiet (unposted_setCall st (by rw [hc]; rfl)) (started_update rfl) (by simp)
  | @lockQueued c k hc hs hf hcap =>
      exact hquiet (unposted_enqueue st (by rw [hc]; rfl))
        (started_update (by cases k <;> rfl)) (by simp)
  | relockAborted hc hk hs =>
      exact hquiet (unposted_abort st (by rw [hc]; rfl)) (started_update (by split <;> rfl))
        (by simp)
  | @relockCreated c k hc hs =>
      exact hquiet (unposted_deliver { st with
          created := st.created + 1
          holders := st.holders ++ [st.fresh]
          fresh := st.fresh + 1 } st.fresh (by rw [show st.calls c = _ from hc]; rfl))
        (started_update (by split <;> rfl)) (by simp)
  | @relockQueued c k hc hs =>
      exact hquiet (unposted_enqueue st (by rw [hc]; rfl))
        (started_update (by cases k <;> rfl)) (by simp)
  | wakeReady hc =>
      exact hquiet (unposted_setCall st (by rw [hc]; rfl)) (started_update rfl) (by simp)
  | @wakeLeft c expired timed hc hs =>
      refine hquiet (fun r => ?_) (started_update rfl) (by simp)
      have hcount : (st.leave c).waiters.count (.async r) = st.waiters.count (.async r) :=
        List.count_filter (by simp)
      rw [unposted, hcount]
      exact unposted_setCall st (v := .returned) (by rw [hc]; rfl) r
  | timerLost ha hc => exact hquiet (fun _ => rfl) (fun _ => le_rfl) (by simp)
  | @timerWon c ha hc =>
      refine hquiet (fun r => ?_) (fun _ => le_rfl) (by simp)
      have hcount := hcoh.count_filter_async (hcoh.armed c ha hc) r
      simp only [unposted, List.countP_append, List.countP_singleton, decide_eq_true_eq]
      omega
  | @posted c p hp =>
      have hemit : st.emit cfg (.post c) = [.posted p.2] := by simp [emit, hp]
      obtain ⟨-, l₁, l₂, hposts, herase⟩ := split_of_find? hp
      rw [hemit]
      refine h.moves rfl (fun r => ?_) fun _ => le_rfl
      simp only [unposted, herase, completions, List.countP_append, List.countP_cons,
        List.countP_nil]
      rw [hposts, List.countP_append, List.countP_cons]
      omega
  | @ran c p hp =>
      obtain ⟨hcall, l₁, l₂, hhandlers, -⟩ := split_of_find? hp
      have hinit := hcoh.initiated_of_handler (p := p) (by simp [hhandlers]) (by simpa using hcall)
      refine hquiet (unposted_setCall { st with
        handlers := st.handlers.eraseP (·.call = c) } ?_) (started_update ?_) (by simp)
      · rw [show st.calls c = _ from hinit]
        cases p.holder <;> rfl
      · cases p.holder <;> rfl
  | resetLate hc hs =>
      exact hquiet (unposted_setCall st (by rw [hc]; rfl)) (started_update rfl) (by simp)
  | @resetParked c x hc hs hpop =>
      refine hquiet (fun r => ?_) (started_update rfl) (by simp)
      have hset := unposted_setCall st (v := .returned) (by rw [hc]; rfl) r
      rw [← hset, unposted, unposted, ← hcoh.waiters_of_pop.1 hpop]
      rfl
  | @resetSync c w x rest hc hs hpop =>
      have hw := hcoh.waiters_of_pop.2 _ _ hpop
      obtain ⟨hcw, timed, ht⟩ := hcoh.sync_of_pop hc hpop
      simp only [Function.update_of_ne hcw, ht] at hquiet ⊢
      refine hquiet (fun r => ?_) (fun r => ?_) (by simp)
      · have hset := unposted_setCall st (v := .returned) (by rw [hc]; rfl) r
        have hset' := unposted_setCall (st.setCall c .returned) (c := w)
          (v := .waiting timed (some x)) (by simp [hcw, ht, Call.initiates]) r
        rw [← hset, ← hset', unposted, unposted,
          show ((st.setCall c .returned).setCall w (.waiting timed (some x))).waiters = _ from hw,
          List.count_cons_of_ne (by simp)]
        rfl
      · exact (started_update rfl r).trans (started_update rfl r)
  | @resetAsync c w x rest hc hs hpop =>
      have hw := hcoh.waiters_of_pop.2 _ _ hpop
      refine hquiet (fun r => ?_) (started_update rfl) (by simp)
      have hset := unposted_setCall st (v := .returned) (by rw [hc]; rfl) r
      rw [← hset, unposted, unposted, show (st.setCall c .returned).waiters = _ from hw]
      simp only [setCall, List.count_cons, List.countP_append, List.countP_singleton, beq_iff_eq,
        WaiterEntry.async.injEq, decide_eq_true_eq]
      omega
  | resetDropped hc hs hh =>
      exact hquiet (unposted_setCall st (by rw [hc]; rfl)) (started_update rfl) (by simp)
  | resetUnknown hc hs hh =>
      exact hquiet (unposted_setCall st (by rw [hc]; rfl)) (started_update rfl) (by simp)
  | exchanged hc =>
      refine hquiet (fun r => ?_) (fun _ => le_rfl) (by simp)
      rw [unposted, unposted, hc]
      rfl
  | exchangedAgain hc => exact hquiet (fun _ => rfl) (fun _ => le_rfl) (by simp)
  | cleared hc =>
      refine hquiet (fun r => ?_) (fun _ => le_rfl) (by simp)
      rw [unposted, unposted, hc]
      simp only [clear, Closing.calls, collect_calls hcoh.nodup hcoh.unclaimed, List.count_nil]
      omega
  | @postedAborted c cs hc =>
      have hemit : st.emit cfg .postAborted = [.posted ⟨c, .operationAborted, none⟩] := by
        simp [emit, hc]
      rw [hemit]
      refine h.moves rfl (fun r => ?_) fun _ => le_rfl
      rw [unposted, unposted, hc]
      simp only [Closing.calls, completions, List.count_cons, List.countP_singleton, beq_iff_eq,
        decide_eq_true_eq]
      omega
  | shutdownReturned hc =>
      refine hquiet (fun r => ?_) (fun _ => le_rfl) (by simp)
      rw [unposted, unposted, hc]
      rfl

theorem exclusive_of_emit {cfg : PoolConfig.Valid} {st st' : Pool} {a : Action} (h : Answered st)
    (hstep : Step cfg st a st') : ∀ p ∈ completions (st.emit cfg a), p.Exclusive := by
  cases hstep
  case posted c p hp =>
    have hmem := List.mem_of_find?_eq_some hp
    simpa [emit, hp, completions] using h.posts p hmem
  case postedAborted c cs hc => simp [emit, hc, completions, Completion.Exclusive]
  case callAborted => simp [emit, completions]
  case callEntered => simp [emit, completions]
  all_goals
    rw [(emit_quiet (by simp)).2]
    exact fun p hp => absurd hp List.not_mem_nil

/-- What holds of the state and the trace of every run. -/
structure Handled (st : Pool) (tr : List Event) : Prop where
  coherent : Coherent st
  answered : Answered st
  accounted : Accounted st tr
  exclusive : ∀ p ∈ completions tr, p.Exclusive

theorem handled_of_run {cfg : PoolConfig.Valid} {attempts : ℕ → Bool} {as : List Action}
    {st : Pool} (h : run (step cfg) (start cfg attempts) as = some st) :
    Handled st (trace (step cfg) (emit cfg) (start cfg attempts) as) := by
  refine trace_invariant (emit cfg) ⟨coherent_start cfg attempts, answered_start cfg attempts,
    accounted_start cfg attempts, fun p hp => absurd hp List.not_mem_nil⟩
    (fun st tr a st' hi hstep => ?_) h
  have hcases := step_cases hstep
  refine ⟨coherent_step hi.coherent hcases, answered_step hi.answered hcases,
    accounted_step hi.coherent hi.accounted hcases, fun p hp => ?_⟩
  rw [completions_append, List.mem_append] at hp
  exact hp.elim (hi.exclusive p) (exclusive_of_emit hi.answered hcases p)

theorem mem_asyncCalls {tr : List Event} {c : ℕ} {bounded : Bool}
    (h : .called c (.asyncAcquire bounded) ∈ tr) : c ∈ asyncCalls tr := by
  obtain ⟨pre, post, rfl⟩ := List.append_of_mem h
  simp [asyncCalls]

/-- `shutdown()` has returned, no call is inside `initiate_async_acquire`, and
nobody in `rs` holds a handler it has yet to post. -/
def Quiescent (rs : List Poster) (st : Pool) : Prop :=
  st.closing = .returned ∧ (∀ c, (st.calls c).initiates = 0) ∧ ∀ p ∈ st.posts, p.1 ∉ rs

/-- In every interleaving, the handler of every call is posted at most once,
with a holder or with an error but never both. Once `shutdown()` has returned
and every `initiate_async_acquire`, every timer callback and every `reset()`
has returned, the handler of every asynchronous call has been posted exactly
once. -/
theorem async_completes_once (cfg : PoolConfig.Valid) (attempts : ℕ → Bool) (as : List Action)
    (st : Pool) (h : run (step cfg) (start cfg attempts) as = some st) :
    (∀ c, (completions (trace (step cfg) (emit cfg) (start cfg attempts) as)).countP
        (·.call = c) ≤ 1) ∧
      (∀ p ∈ completions (trace (step cfg) (emit cfg) (start cfg attempts) as), p.Exclusive) ∧
      (Quiescent [.initiate, .timer, .release] st → ∀ c bounded,
        .called c (.asyncAcquire bounded) ∈ trace (step cfg) (emit cfg) (start cfg attempts) as →
          (completions (trace (step cfg) (emit cfg) (start cfg attempts) as)).countP
            (·.call = c) = 1) := by
  obtain ⟨hcoh, -, hacc, hans⟩ := handled_of_run h
  have hone (c : ℕ) :
      (asyncCalls (trace (step cfg) (emit cfg) (start cfg attempts) as)).count c ≤ 1 :=
    (hacc.once c).trans (by cases st.calls c <;> simp [Call.started])
  refine ⟨fun c => ?_, hans, fun hq c bounded hcall => ?_⟩
  · have := hacc.balance c
    have := hone c
    omega
  · obtain ⟨hclosing, hinitiates, hposts⟩ := hq
    have hcalled : 0 < (asyncCalls _).count c := List.count_pos_iff.mpr (mem_asyncCalls hcall)
    have hbalance := hacc.balance c
    -- no place is left where the handler could be
    have hnoposts : st.posts.countP (·.2.call = c) = 0 := by
      refine List.countP_eq_zero.mpr fun p hp => absurd ?_ (hposts p hp)
      cases p.1 <;> simp
    have hnowaiter : st.waiters.count (.async c) = 0 := by
      refine List.count_eq_zero.mpr fun hin => ?_
      rcases hcoh.uncleared c hin with hcl | hcl <;> simp [hclosing] at hcl
    rw [unposted, hinitiates c, hnoposts, hnowaiter, hclosing] at hbalance
    have := hone c
    simp only [Closing.calls, List.count_nil] at hbalance
    omega

/-- A borrower's release claims the only waiter, and posts its handler; then
the pool is shut down. -/
def releaseThenShutdown : List Action :=
  [.call 0 (.acquire false), .lock 0, .call 1 (.asyncAcquire false), .lock 1, .reset 0 true,
    .post 1, .exchange, .clear, .returnShutdown]

theorem async_completes_releaseThenShutdown :
    (completions (trace (step single) (emit single) (start single fun _ => true)
      releaseThenShutdown)).countP (·.call = 1) = 1 := by
  refine (async_completes_once single (fun _ => true) releaseThenShutdown _ rfl).2.2
    ⟨rfl, fun c => ?_, fun p hp => absurd hp List.not_mem_nil⟩ 1 false (by decide)
  match c with
  | 0 => rfl
  | 1 => rfl
  | n + 2 => rfl

/-- The borrower has claimed the waiter and left its critical section, and
does not get to post before `shutdown()` has come and gone. -/
def releaseOvertaken : List Action :=
  [.call 0 (.acquire false), .lock 0, .call 1 (.asyncAcquire false), .lock 1, .reset 0 true,
    .exchange, .clear, .returnShutdown]

/-- `initiate_async_acquire` and `shutdown()` have returned and there is no
timer, but the handler has not been posted. -/
theorem releaseOvertaken_unposted :
    ∃ st, run (step single) (start single fun _ => true) releaseOvertaken = some st ∧
      Quiescent [.initiate, .timer] st ∧
      .called 1 (.asyncAcquire false) ∈
        trace (step single) (emit single) (start single fun _ => true) releaseOvertaken ∧
      (completions (trace (step single) (emit single) (start single fun _ => true)
        releaseOvertaken)).countP (·.call = 1) = 0 := by
  refine ⟨_, rfl, ⟨rfl, fun c => ?_, fun p hp => ?_⟩, by decide, rfl⟩
  · match c with
    | 0 => rfl
    | 1 => rfl
    | n + 2 => rfl
  · obtain rfl := List.mem_singleton.mp hp
    decide

end Pool

end Demiplane.Postgres

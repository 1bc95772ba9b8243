import Demiplane.Postgres.Coherence
import Demiplane.Queue.Fifo
import Demiplane.Transition.Trace

/-!
Who is served when. Before shutdown `waiters_` is a first-come-first-served
queue: releases serve the front, timeouts take a waiter out of the middle, and
nothing else removes one. But a call does not look at the queue before it
takes a holder from the free list or connects, and so may be served before the
waiters it finds; nobody is overtaken as long as every call that finds a waiter
also finds nothing to take and no room.
-/

namespace Demiplane.Postgres

open Transition
open Queue (enters serves quits lasting)
open PoolConfig (minimal single)

/-- What a run shows of the queue. -/
def queueEvent : Event → Option (Queue.Event WaiterEntry)
  | .enqueued w => some (.enter w)
  | .served w _ => some (.serve w)
  | .timedOut w => some (.quit w)
  | _ => none

def queueEvents (tr : List Event) : List (Queue.Event WaiterEntry) := tr.filterMap queueEvent

@[simp] theorem queueEvents_append (tr us : List Event) :
    queueEvents (tr ++ us) = queueEvents tr ++ queueEvents us := List.filterMap_append

/-- The call that made the waiter. -/
def WaiterEntry.call : WaiterEntry → ℕ
  | .sync c | .async c => c

theorem Kind.call_of_mem_waiter {k : Kind} {c : ℕ} {w : WaiterEntry} (hw : w ∈ k.waiter c) :
    w.call = c := by
  cases k <;> simp only [waiter, List.mem_singleton, List.not_mem_nil] at hw <;> subst hw <;> rfl

/-- The call that gets a holder. -/
def Event.obtains : Event → Option ℕ
  | .took c _ | .created c _ => some c
  | .served w _ => some w.call
  | _ => none

/-- How far a call has come: not called, before its first critical section,
between its two critical sections, after them. -/
def Call.stage : Call → ℕ
  | .idle => 0
  | .entered _ => 1
  | .creating _ => 2
  | _ => 3

theorem Call.stage_le (call : Call) : call.stage ≤ 3 := by
  cases call <;> simp [stage]

theorem Kind.stage_parked (k : Kind) : k.parked.stage = 3 := by
  cases k <;> rfl

namespace Pool

theorem stage_update {calls : ℕ → Call} {c : ℕ} {v : Call} (hv : (calls c).stage ≤ v.stage)
    (r : ℕ) : (calls r).stage ≤ (Function.update calls c v r).stage := by
  by_cases hrc : r = c
  · subst hrc
    rwa [Function.update_self]
  · rw [Function.update_of_ne hrc]

variable {cfg : PoolConfig.Valid}

/-- Calls only go on. -/
theorem stage_step {st st' : Pool} {a : Action}
    (hstep : Step cfg st a st') (r : ℕ) : (st.calls r).stage ≤ (st'.calls r).stage := by
  have hdone {calls : ℕ → Call} {c : ℕ} {v : Call} (hv : v.stage = 3) (r : ℕ) :
      (calls r).stage ≤ (Function.update calls c v r).stage :=
    stage_update (hv ▸ Call.stage_le _) r
  cases hstep with
  | callAborted hc hs => exact hdone (by split <;> rfl) r
  | callEntered hc hs => exact stage_update (by rw [hc]; exact Nat.zero_le _) r
  | lockAborted hc hs => exact hdone (by split <;> rfl) r
  | lockTook hc hs hf => exact hdone (by split <;> rfl) r
  | lockCreating hc hs hf hcap => exact stage_update (by simp [hc, Call.stage]) r
  | lockQueued hc hs hf hcap => exact hdone (Kind.stage_parked _) r
  | relockAborted hc hk hs => exact hdone (by split <;> rfl) r
  | relockCreated hc hs => exact hdone (by split <;> rfl) r
  | relockQueued hc hs => exact hdone (Kind.stage_parked _) r
  | wakeReady hc => exact hdone rfl r
  | wakeLeft hc hs => exact hdone rfl r
  | @ran c p hp => exact hdone (by cases p.holder <;> rfl) r
  | resetLate hc hs => exact hdone rfl r
  | resetParked hc hs hpop => exact hdone rfl r
  | @resetSync c w x rest hc hs hpop =>
      refine (hdone (c := c) (v := .returned) rfl r).trans (stage_update ?_ r)
      split <;> simp_all [Call.stage]
  | resetAsync hc hs hpop => exact hdone rfl r
  | resetDropped hc hs hh => exact hdone rfl r
  | resetUnknown hc hs hh => exact hdone rfl r
  | _ => exact le_rfl

/-- Before shutdown, a waiter that is not `ready` is queued. -/
def Parked (st : Pool) : Prop :=
  ∀ c timed, st.calls c = .waiting timed none → .sync c ∈ st.waiters

/-- What a step before shutdown does to the queue, with what it shows. -/
inductive QueueStep (cfg : PoolConfig.Valid) (st st' : Pool) : List Event → Prop
  | quiet {us : List Event} (hw : st'.waiters = st.waiters)
      (hus : ∀ e ∈ us, (∃ c k, e = .called c k) ∨ ∃ p, e = .posted p) : QueueStep cfg st st' us
  | took {c : ℕ} {x : Holder} (hw : st'.waiters = st.waiters) (hc : (st.calls c).stage = 1)
      (hc' : (st'.calls c).stage = 3) (hf : st.free ≠ []) :
      QueueStep cfg st st' [.locked c, .took c x]
  | creating {c : ℕ} (hw : st'.waiters = st.waiters) (hc : (st.calls c).stage = 1)
      (hc' : (st'.calls c).stage = 2) (hcap : st.created < cfg.1.capacity) :
      QueueStep cfg st st' [.locked c]
  | queued {c : ℕ} {k : Kind} (hw : st'.waiters = st.waiters ++ k.waiter c)
      (hc : (st.calls c).stage = 1) (hc' : (st'.calls c).stage = 3) :
      QueueStep cfg st st' (.locked c :: (k.waiter c).map .enqueued)
  | created {c : ℕ} {x : Holder} (hw : st'.waiters = st.waiters) (hc : (st.calls c).stage = 2) :
      QueueStep cfg st st' [.created c x]
  | failed {c : ℕ} {k : Kind} (hw : st'.waiters = st.waiters ++ k.waiter c)
      (hc : (st.calls c).stage = 2) (hc' : (st'.calls c).stage = 3) :
      QueueStep cfg st st' ((k.waiter c).map .enqueued)
  | served {w : WaiterEntry} {x : Holder} (hw : st.waiters = w :: st'.waiters) :
      QueueStep cfg st st' [.served w x]
  | timedOut {w : WaiterEntry} (hin : w ∈ st.waiters)
      (hw : st'.waiters = st.waiters.filter (· ≠ w)) : QueueStep cfg st st' [.timedOut w]

theorem queueStep_of_step {st st' : Pool} {a : Action}
    (hcoh : Coherent st) (hparked : Parked st) (hs : st.isShutdown = false)
    (hs' : st'.isShutdown = false) (hstep : Step cfg st a st') :
    QueueStep cfg st st' (st.emit cfg a) := by
  have hclosed {P : Prop} (h : st.isShutdown = true) : P := absurd (h.symm.trans hs) (by decide)
  have hclosing {P : Prop} (h : st.closing ≠ .idle) : P := absurd (hcoh.flagged.mp hs) h
  cases hstep with
  | callAborted hc h => exact hclosed h
  | callEntered hc h => exact .quiet rfl (by simp [emit])
  | lockAborted hc h => exact hclosed h
  | @lockTook c k x rest hc h hf =>
      have hemit : st.emit cfg (.lock c) = [.locked c, .took c x] := by simp [emit, hc, hs, hf]
      rw [hemit]
      refine .took rfl (by rw [hc]; rfl) ?_ (by simp [hf])
      simp only [deliver, Function.update_self]
      split <;> rfl
  | @lockCreating c k hc h hf hcap =>
      have hemit : st.emit cfg (.lock c) = [.locked c] := by simp [emit, hc, hs, hf, hcap]
      rw [hemit]
      exact .creating rfl (by rw [hc]; rfl) (by simp [Call.stage]) hcap
  | @lockQueued c k hc h hf hcap =>
      have hemit : st.emit cfg (.lock c) = .locked c :: (k.waiter c).map .enqueued := by
        simp [emit, hc, hs, hf, Nat.not_lt.mpr hcap]
      rw [hemit]
      exact .queued rfl (by rw [hc]; rfl) (by simp [enqueue, Kind.stage_parked])
  | relockAborted hc hk h => exact hclosed h
  | @relockCreated c k hc h =>
      have hemit : st.emit cfg (.relock c true) = [.created c st.fresh] := by simp [emit, hc, hs]
      rw [hemit]
      exact .created rfl (by rw [hc]; rfl)
  | @relockQueued c k hc h =>
      have hemit : st.emit cfg (.relock c false) = (k.waiter c).map .enqueued := by
        simp [emit, hc, hs]
      rw [hemit]
      exact .failed rfl (by rw [hc]; rfl) (by simp [enqueue, Kind.stage_parked])
  | wakeReady hc => exact .quiet rfl (by simp [emit, hc])
  | @wakeLeft c expired timed hc h =>
      have hemit : st.emit cfg (.wake c expired) = [.timedOut (.sync c)] := by simp [emit, hc, hs]
      rw [hemit]
      exact .timedOut (hparked c timed hc) rfl
  | timerLost ha hc => exact .quiet rfl (by simp [emit, hc])
  | @timerWon c ha hc =>
      have hemit : st.emit cfg (.timer c) = [.timedOut (.async c)] := by simp [emit, hc]
      rw [hemit]
      exact .timedOut (hcoh.armed c ha hc) rfl
  | posted hp => exact .quiet rfl (by simp [emit, hp])
  | ran hp => exact .quiet rfl (by simp [emit])
  | resetLate hc h => exact hclosed h
  | @resetParked c x hc h hpop =>
      exact .quiet (hcoh.waiters_of_pop.1 hpop).symm (by simp [emit, hc, hs, hpop])
  | @resetSync c w x rest hc h hpop =>
      have hemit : st.emit cfg (.reset c true) = [.served (.sync w) x] := by
        simp [emit, hc, hs, hpop]
      rw [hemit]
      exact .served (hcoh.waiters_of_pop.2 _ _ hpop)
  | @resetAsync c w x rest hc h hpop =>
      have hemit : st.emit cfg (.reset c true) = [.served (.async w) x] := by
        simp [emit, hc, hs, hpop]
      rw [hemit]
      exact .served (hcoh.waiters_of_pop.2 _ _ hpop)
  | resetDropped hc h hh => exact .quiet rfl (by simp [emit])
  | resetUnknown hc h hh => exact .quiet rfl (by simp [emit])
  | exchanged hc => cases hs'
  | exchangedAgain hc => exact hclosing hc
  | cleared hc => exact hclosing (by simp [hc])
  | postedAborted hc => exact hclosing (by simp [hc])
  | shutdownReturned hc => exact hclosing (by simp [hc])

/-- A call goes on, without waiting or `ready`, and the others stay queued. -/
theorem Parked.update {st st' : Pool} {c : ℕ} {v : Call} (h : Parked st)
    (hcalls : st'.calls = Function.update st.calls c v) (hv : ∀ timed, v ≠ .waiting timed none)
    (hw : ∀ r, r ≠ c → .sync r ∈ st.waiters → .sync r ∈ st'.waiters) : Parked st' := by
  intro r timed hr
  rw [hcalls] at hr
  by_cases hrc : r = c
  · subst hrc
    rw [Function.update_self] at hr
    exact absurd hr (hv timed)
  · rw [Function.update_of_ne hrc] at hr
    exact hw r hrc (h r timed hr)

theorem Parked.enqueue {st : Pool} {c : ℕ} {k : Kind} (h : Parked st) :
    Parked (st.enqueue k c) := by
  intro r timed hr
  simp only [Pool.enqueue] at hr ⊢
  by_cases hrc : r = c
  · subst hrc
    rw [Function.update_self] at hr
    refine List.mem_append_right _ ?_
    cases k <;> simp [Kind.parked, Kind.waiter] at hr ⊢
  · rw [Function.update_of_ne hrc] at hr
    exact List.mem_append_left _ (h r timed hr)

theorem parked_step {st st' : Pool} {a : Action} (hcoh : Coherent st)
    (h : Parked st) (hs : st.isShutdown = false) (hstep : Step cfg st a st') : Parked st' := by
  have hclosed {P : Prop} (h : st.isShutdown = true) : P := absurd (h.symm.trans hs) (by decide)
  have hclosing {P : Prop} (h : st.closing ≠ .idle) : P := absurd (hcoh.flagged.mp hs) h
  cases hstep with
  | callAborted hc h => exact hclosed h
  | callEntered hc h' => exact h.update rfl (by simp) fun _ _ => id
  | lockAborted hc h => exact hclosed h
  | lockTook hc h' hf => exact h.update rfl (by intro timed; split <;> simp) fun _ _ => id
  | lockCreating hc h' hf hcap => exact h.update rfl (by simp) fun _ _ => id
  | lockQueued hc h' hf hcap => exact h.enqueue
  | relockAborted hc hk h => exact hclosed h
  | relockCreated hc h' => exact h.update rfl (by intro timed; split <;> simp) fun _ _ => id
  | relockQueued hc h' => exact h.enqueue
  | wakeReady hc => exact h.update rfl (by simp) fun _ _ => id
  | wakeLeft hc h' =>
      refine h.update rfl (by simp) fun r hrc hr => ?_
      simpa [leave, hrc] using hr
  | timerWon ha hc =>
      intro r timed hr
      simpa using h r timed hr
  | @ran c p hp => exact h.update rfl (by intro timed; cases p.holder <;> simp) fun _ _ => id
  | resetLate hc h => exact hclosed h
  | resetParked hc h' hpop =>
      exact h.update rfl (by simp) fun r _ hr => hcoh.waiters_of_pop.1 hpop ▸ hr
  | @resetSync c w x rest hc h' hpop =>
      have hw := hcoh.waiters_of_pop.2 _ _ hpop
      obtain ⟨hcw, timed, ht⟩ := hcoh.sync_of_pop hc hpop
      have hset : Parked (st.setCall c .returned) := h.update rfl (by simp) fun _ _ => id
      refine hset.update (c := w) (v := .waiting timed (some x)) ?_ (by simp) fun r hrw hr => ?_
      · simp [hcw, ht]
      · simpa [setCall, hw, hrw] using hr
  | @resetAsync c w x rest hc h' hpop =>
      have hw := hcoh.waiters_of_pop.2 _ _ hpop
      exact h.update rfl (by simp) fun r _ hr => by simpa [hw] using hr
  | resetDropped hc h' hh => exact h.update rfl (by simp) fun _ _ => id
  | resetUnknown hc h' hh => exact h.update rfl (by simp) fun _ _ => id
  | cleared hc => exact hclosing (by simp [hc])
  | _ => exact h

/-- A call takes the mutex for the first time before it queues. -/
def LocksFirst (pre : List Event) : Event → Prop
  | .locked c => ∀ w, .enqueued w ∈ pre → w.call ≠ c
  | _ => True

/-- The queue of the pool and what the run has shown of it. -/
structure Queueing (st : Pool) (tr : List Event) : Prop where
  parked : Parked st
  runs : run Queue.step [] (queueEvents tr) = some st.waiters
  distinct : (enters (queueEvents tr)).Nodup
  locked : ∀ c, .locked c ∈ tr → 2 ≤ (st.calls c).stage
  enqueued : ∀ w, .enqueued w ∈ tr → 3 ≤ (st.calls w.call).stage
  first : Justified LocksFirst tr

theorem mem_enters {tr : List Event} {w : WaiterEntry} :
    w ∈ enters (queueEvents tr) ↔ .enqueued w ∈ tr := by
  induction tr with
  | nil => simp [queueEvents, enters]
  | cons e tr ih =>
      cases e with
      | enqueued v =>
          have hcons : enters (queueEvents (.enqueued v :: tr)) = v :: enters (queueEvents tr) :=
            rfl
          rw [hcons, List.mem_cons, List.mem_cons, ih, Event.enqueued.injEq]
      | _ => exact ih.trans (by simp)

namespace QueueStep

variable {cfg : PoolConfig.Valid} {st st' : Pool} {us : List Event}

theorem queueEvents_waiter (k : Kind) (c : ℕ) :
    queueEvents ((k.waiter c).map .enqueued) = (k.waiter c).map .enter := by
  cases k <;> rfl

theorem queueEvents_quiet (hus : ∀ e ∈ us, (∃ c k, e = .called c k) ∨ ∃ p, e = .posted p) :
    queueEvents us = [] := by
  refine List.filterMap_eq_nil_iff.mpr fun e he => ?_
  rcases hus e he with ⟨c, k, rfl⟩ | ⟨p, rfl⟩ <;> rfl

/-- The step is a run of the queue. -/
theorem runs (h : QueueStep cfg st st' us) :
    run Queue.step st.waiters (queueEvents us) = some st'.waiters := by
  have henter (k : Kind) (c : ℕ) (q : List WaiterEntry) :
      run Queue.step q ((k.waiter c).map .enter) = some (q ++ k.waiter c) := by
    cases k <;> simp [Kind.waiter, run, Queue.step]
  cases h with
  | quiet hw hus =>
      rw [queueEvents_quiet hus, hw]
      rfl
  | took hw hc hc' hf => exact congrArg some hw.symm
  | creating hw hc hc' hcap => exact congrArg some hw.symm
  | @queued c k hw hc hc' =>
      have hevents := queueEvents_waiter k c
      rw [hw, ← henter, ← hevents]
      rfl
  | created hw hc => exact congrArg some hw.symm
  | @failed c k hw hc hc' => rw [hw, queueEvents_waiter, henter]
  | served hw => simp [hw, queueEvents, queueEvent, run, Queue.step]
  | timedOut hin hw => simp [hw, hin, queueEvents, queueEvent, run, Queue.step]

/-- A call queues when its critical sections are over. -/
theorem enqueued (h : QueueStep cfg st st' us) {w : WaiterEntry} (hw : .enqueued w ∈ us) :
    (st.calls w.call).stage ≤ 2 ∧ (st'.calls w.call).stage = 3 := by
  cases h with
  | quiet hw' hus => rcases hus _ hw with ⟨c, k, he⟩ | ⟨p, he⟩ <;> cases he
  | @queued c k hw' hc hc' =>
      have hmem : w ∈ k.waiter c := by simpa using hw
      rw [Kind.call_of_mem_waiter hmem]
      omega
  | @failed c k hw' hc hc' =>
      have hmem : w ∈ k.waiter c := by simpa using hw
      rw [Kind.call_of_mem_waiter hmem]
      omega
  | _ => simp at hw

/-- A first critical section shows itself first. -/
theorem locked (h : QueueStep cfg st st' us) {us₁ us₂ : List Event} {c : ℕ}
    (hus : us = us₁ ++ .locked c :: us₂) :
    us₁ = [] ∧ (st.calls c).stage = 1 ∧ 2 ≤ (st'.calls c).stage ∧
      ((st'.calls c).stage = 3 ∨ st.created < cfg.1.capacity) := by
  have hmem : .locked c ∈ us := by simp [hus]
  -- no other event of a step is the start of a critical section
  have hhead {r : ℕ} {vs : List Event} (hvs : .locked c ∉ vs)
      (hus : .locked r :: vs = us₁ ++ .locked c :: us₂) : us₁ = [] ∧ r = c := by
    cases us₁ with
    | nil => exact ⟨rfl, by simpa using (List.cons.inj hus).1⟩
    | cons e us₁ =>
        rw [List.cons_append, List.cons.injEq] at hus
        exact absurd (by simp [hus.2]) hvs
  cases h with
  | quiet hw' hquiet => rcases hquiet _ hmem with ⟨c, k, he⟩ | ⟨p, he⟩ <;> cases he
  | took hw hc hc' hf =>
      obtain ⟨hnil, rfl⟩ := hhead (by simp) hus
      exact ⟨hnil, hc, by omega, .inl hc'⟩
  | creating hw hc hc' hcap =>
      obtain ⟨hnil, rfl⟩ := hhead (by simp) hus
      exact ⟨hnil, hc, by omega, .inr hcap⟩
  | queued hw hc hc' =>
      obtain ⟨hnil, rfl⟩ := hhead (by simp) hus
      exact ⟨hnil, hc, by omega, .inl hc'⟩
  | _ => simp at hmem

/-- A step queues at most one waiter. -/
theorem distinct (h : QueueStep cfg st st' us) : (enters (queueEvents us)).Nodup := by
  have henters (k : Kind) (c : ℕ) :
      (enters (queueEvents ((k.waiter c).map .enqueued))).Nodup := by
    cases k with
    | tryAcquire => exact List.nodup_nil
    | _ => exact List.nodup_singleton _
  cases h with
  | quiet hw hus => simp [queueEvents_quiet hus, enters]
  | @queued c k hw hc hc' => exact henters k c
  | @failed c k hw hc hc' => exact henters k c
  | _ => exact List.nodup_nil

end QueueStep

theorem queueing_start (cfg : PoolConfig.Valid) (attempts : ℕ → Bool) :
    Queueing (start cfg attempts) [] := by
  obtain ⟨n, -, hidle⟩ := start_eq cfg attempts
  rw [hidle]
  exact {
    parked := fun c timed hc => by cases hc
    runs := rfl
    distinct := List.nodup_nil
    locked := fun c hc => absurd hc List.not_mem_nil
    enqueued := fun w hw => absurd hw List.not_mem_nil
    first := justified_nil }

theorem queueing_step {st st' : Pool} {tr us : List Event}
    (h : Queueing st tr) (hparked : Parked st')
    (hstage : ∀ r, (st.calls r).stage ≤ (st'.calls r).stage) (hstep : QueueStep cfg st st' us) :
    Queueing st' (tr ++ us) where
  parked := hparked
  runs := by rw [queueEvents_append, run_append, h.runs, Option.bind_some, hstep.runs]
  distinct := by
    rw [queueEvents_append, Queue.enters_append]
    refine List.nodup_append.mpr ⟨h.distinct, hstep.distinct, ?_⟩
    rintro w hw _ hw' rfl
    have := h.enqueued w (mem_enters.mp hw)
    have := (hstep.enqueued (mem_enters.mp hw')).1
    omega
  locked c hc := by
    rcases List.mem_append.mp hc with hc | hc
    · exact (h.locked c hc).trans (hstage c)
    · obtain ⟨us₁, us₂, hus⟩ := List.append_of_mem hc
      exact (hstep.locked hus).2.2.1
  enqueued w hw := by
    rcases List.mem_append.mp hw with hw | hw
    · exact (h.enqueued w hw).trans (hstage _)
    · exact (hstep.enqueued hw).2.ge
  first := by
    refine h.first.append fun us₁ e us₂ hus => ?_
    cases e with
    | locked c =>
        obtain ⟨rfl, hc, -⟩ := hstep.locked hus
        rintro w hw rfl
        have := h.enqueued w (by simpa using hw)
        omega
    | _ => trivial

/-! ### Newcomers -/

/-- The waiter has entered the queue and has neither been served nor timed
out. -/
def QueuedIn (tr : List Event) (w : WaiterEntry) : Prop :=
  w ∈ enters (queueEvents tr) ∧ w ∉ serves (queueEvents tr) ∧ w ∉ quits (queueEvents tr)

theorem Queueing.order {st : Pool} {tr : List Event} (h : Queueing st tr) :
    serves (queueEvents tr) ++ st.waiters = lasting (queueEvents tr) :=
  (Queue.ordered_of_run h.runs h.distinct).order

theorem Queueing.mem_waiters {st : Pool} {tr : List Event} {w : WaiterEntry} (h : Queueing st tr)
    (hw : QueuedIn tr w) : w ∈ st.waiters := by
  have hlasting : w ∈ lasting (queueEvents tr) :=
    List.mem_filter.mpr ⟨hw.1, by simpa using hw.2.2⟩
  rw [← h.order, List.mem_append] at hlasting
  exact hlasting.resolve_left hw.2.1

/-- A call that first had the mutex while `w` was queued gets a holder only
when `w` has been served or has timed out. -/
def NotOvertaken (pre : List Event) (e : Event) : Prop :=
  ∀ c, e.obtains = some c → ∀ before between, pre = before ++ .locked c :: between →
    ∀ w, QueuedIn before w → w ∈ serves (queueEvents pre) ∨ w ∈ quits (queueEvents pre)

/-- A first critical section that finds a waiter finds no free holder and no
room for another. -/
def FindsNothing (cfg : PoolConfig.Valid) (st : Pool) : Action → Prop
  | .lock _ =>
      st.isShutdown = false → st.waiters ≠ [] → st.free = [] ∧ cfg.1.capacity ≤ st.created
  | _ => True

theorem lock_of_emit {st : Pool} {a : Action} {c : ℕ}
    (h : .locked c ∈ st.emit cfg a) : ∃ r, a = .lock r := by
  cases a with
  | lock r => exact ⟨r, rfl⟩
  | reset r alive =>
      exfalso
      cases alive <;> simp only [emit] at h <;> (repeat' split at h) <;> simp at h
  | _ =>
      exfalso
      simp only [emit] at h
      (repeat' split at h) <;> simp at h

/-- A call that first had the mutex while somebody was queued is past its
critical sections. -/
def Barred (st : Pool) (tr : List Event) : Prop :=
  ∀ pre c mid, tr = pre ++ .locked c :: mid → (∃ w, QueuedIn pre w) → 3 ≤ (st.calls c).stage

section Newcomers

variable {cfg : PoolConfig.Valid} {st st' : Pool} {tr us : List Event}

theorem barred_step (hq : Queueing st tr) (h : Barred st tr)
    (hstage : ∀ r, (st.calls r).stage ≤ (st'.calls r).stage) (hstep : QueueStep cfg st st' us)
    (hfinds : ∀ c, .locked c ∈ us → st.waiters ≠ [] → st.free = [] ∧ cfg.1.capacity ≤ st.created) :
    Barred st' (tr ++ us) := by
  rintro pre c mid hsplit ⟨w, hw⟩
  rcases split_of_append hsplit with ⟨mid', htr⟩ | ⟨us₁, us₂, hus, rfl⟩
  · exact (h pre c mid' htr ⟨w, hw⟩).trans (hstage c)
  · obtain ⟨rfl, -, -, hdone | hroom⟩ := hstep.locked hus
    · exact hdone.ge
    · rw [List.append_nil] at hw
      have hfull := (hfinds c (by simp [hus]) (List.ne_nil_of_mem (hq.mem_waiters hw))).2
      omega

/-- A waiter at the front has seen those go that were queued when its call
first had the mutex. -/
theorem Queueing.served {v w : WaiterEntry} {rest : List WaiterEntry} {before between : List Event}
    (hq : Queueing st tr) (hv : st.waiters = v :: rest)
    (htr : tr = before ++ .locked v.call :: between) (hw : QueuedIn before w) :
    w ∈ serves (queueEvents tr) ∨ w ∈ quits (queueEvents tr) := by
  have hentered : v ∈ enters (queueEvents tr) := by
    have hlasting : v ∈ lasting (queueEvents tr) := by simp [← hq.order, hv]
    exact List.mem_of_mem_filter hlasting
  have hruns := hq.runs
  have hdistinct := hq.distinct
  rw [hv, htr, queueEvents_append] at hruns
  rw [htr, queueEvents_append] at hdistinct hentered ⊢
  rw [Queue.enters_append, List.mem_append] at hentered
  have hlater := hentered.resolve_left fun hearly =>
    hq.first before (.locked v.call) between htr v (mem_enters.mp hearly) rfl
  exact Queue.served_or_quit hruns hdistinct hw.1 hlater

theorem notOvertaken_step (hq : Queueing st tr) (hbarred : Barred st tr)
    (h : Justified NotOvertaken tr) (hstep : QueueStep cfg st st' us)
    (hfinds : ∀ c, .locked c ∈ us → st.waiters ≠ [] → st.free = [] ∧ cfg.1.capacity ≤ st.created) :
    Justified NotOvertaken (tr ++ us) := by
  refine h.append fun us₁ e us₂ hus c hobtains before between hpre w hw => ?_
  have hmem : e ∈ us := by simp [hus]
  cases hstep with
  | quiet hw' hquiet => rcases hquiet e hmem with ⟨c, k, rfl⟩ | ⟨p, rfl⟩ <;> cases hobtains
  | @took r x hw' hc hc' hf =>
      obtain rfl | rfl : e = .locked r ∨ e = .took r x := by simpa using hmem
      · cases hobtains
      · obtain rfl := Option.some.inj hobtains
        obtain rfl : us₁ = [.locked r] := by
          match us₁ with
          | [] => simp at hus
          | [e] => simpa using (List.cons.inj hus).1.symm
          | _ :: _ :: us₁ => simp at hus
        -- the call has not had the mutex before
        rcases split_of_append hpre with ⟨mid, htr⟩ | ⟨vs₁, vs₂, hvs, rfl⟩
        · have := hq.locked r (by simp [htr])
          omega
        · obtain ⟨rfl, -⟩ := split_singleton hvs
          rw [List.append_nil] at hw
          exact absurd (hfinds r (by simp) (List.ne_nil_of_mem (hq.mem_waiters hw))).1 hf
  | creating hw' hc hc' hcap =>
      obtain ⟨-, rfl⟩ := split_singleton hus
      cases hobtains
  | @queued r k hw' hc hc' =>
      obtain rfl | ⟨v, -, rfl⟩ : e = .locked r ∨ ∃ v ∈ k.waiter r, .enqueued v = e := by
        simpa using hmem
      · cases hobtains
      · cases hobtains
  | @created r x hw' hc =>
      obtain ⟨rfl, rfl⟩ := split_singleton hus
      obtain rfl := Option.some.inj hobtains
      have := hbarred before r between (by simpa using hpre) ⟨w, hw⟩
      omega
  | @failed r k hw' hc hc' =>
      obtain ⟨v, -, rfl⟩ : ∃ v ∈ k.waiter r, .enqueued v = e := by simpa using hmem
      cases hobtains
  | @served v x hw' =>
      obtain ⟨rfl, rfl⟩ := split_singleton hus
      obtain rfl := Option.some.inj hobtains
      rw [List.append_nil] at hpre ⊢
      exact hq.served hw' hpre hw
  | timedOut hin hw' =>
      obtain ⟨-, rfl⟩ := split_singleton hus
      cases hobtains

end Newcomers

theorem queueing_of_run {attempts : ℕ → Bool} {as : List Action}
    {st : Pool} (h : run (step cfg) (start cfg attempts) as = some st)
    (hs : st.isShutdown = false) :
    Queueing st (trace (step cfg) (emit cfg) (start cfg attempts) as) := by
  refine (trace_invariant (emit cfg)
    (I := fun st tr => Coherent st ∧ (st.isShutdown = false → Queueing st tr))
    ⟨coherent_start cfg attempts, fun _ => queueing_start cfg attempts⟩ ?_ h).2 hs
  rintro st tr a st' ⟨hcoh, hq⟩ hstep
  have hcases := step_cases hstep
  refine ⟨coherent_step hcoh hcases, fun hs' => ?_⟩
  have hs := open_of_step hcases hs'
  exact queueing_step (hq hs) (parked_step hcoh (hq hs).parked hs hcases) (stage_step hcases)
    (queueStep_of_step hcoh (hq hs).parked hs hs' hcases)

theorem notOvertaken_of_guarded {attempts : ℕ → Bool} {as : List Action}
    {st : Pool} (h : run (step cfg) (start cfg attempts) as = some st)
    (hs : st.isShutdown = false)
    (hg : Guarded (step cfg) (FindsNothing cfg) (start cfg attempts) as) :
    Justified NotOvertaken (trace (step cfg) (emit cfg) (start cfg attempts) as) := by
  refine (guarded_invariant (I := fun st hist => Coherent st ∧ (st.isShutdown = false →
      Queueing st (hist.flatMap fun p => p.1.emit cfg p.2) ∧
      Barred st (hist.flatMap fun p => p.1.emit cfg p.2) ∧
      Justified NotOvertaken (hist.flatMap fun p => p.1.emit cfg p.2)))
    ⟨coherent_start cfg attempts, fun _ => ⟨queueing_start cfg attempts, ?_, justified_nil⟩⟩ ?_
    h hg).2 hs |>.2.2
  · intro pre c mid hnil
    simp at hnil
  · rintro st hist a st' ⟨hcoh, hfair⟩ hguard hstep
    have hcases := step_cases hstep
    refine ⟨coherent_step hcoh hcases, fun hs' => ?_⟩
    have hs := open_of_step hcases hs'
    obtain ⟨hq, hbarred, hnot⟩ := hfair hs
    have hqstep := queueStep_of_step hcoh hq.parked hs hs' hcases
    have hfinds (c : ℕ) (hc : .locked c ∈ st.emit cfg a) (hw : st.waiters ≠ []) :
        st.free = [] ∧ cfg.1.capacity ≤ st.created := by
      obtain ⟨r, rfl⟩ := lock_of_emit hc
      exact hguard hs hw
    rw [List.flatMap_append, List.flatMap_singleton]
    exact ⟨queueing_step hq (parked_step hcoh hq.parked hs hcases) (stage_step hcases) hqstep,
      barred_step hq hbarred (stage_step hcases) hqstep hfinds,
      notOvertaken_step hq hbarred hnot hqstep hfinds⟩

/-- In every interleaving before shutdown, the waiters served so far and those
still queued are, in this order, the waiters that entered the queue and have
not timed out. And when every first critical section that finds a waiter finds
nothing to take, no call gets a holder before the waiters it found queued have
been served or have timed out. -/
theorem fifo_fairness (cfg : PoolConfig.Valid) (attempts : ℕ → Bool) (as : List Action)
    (st : Pool) (h : run (step cfg) (start cfg attempts) as = some st)
    (hs : st.isShutdown = false) :
    serves (queueEvents (trace (step cfg) (emit cfg) (start cfg attempts) as)) ++ st.waiters =
        lasting (queueEvents (trace (step cfg) (emit cfg) (start cfg attempts) as)) ∧
      (Guarded (step cfg) (FindsNothing cfg) (start cfg attempts) as →
        Justified NotOvertaken (trace (step cfg) (emit cfg) (start cfg attempts) as)) :=
  ⟨(queueing_of_run h hs).order, notOvertaken_of_guarded h hs⟩

/-- Two calls queue behind the borrower of the only holder, and its release
serves the first of them. -/
def servedInOrder : List Action :=
  [.call 0 .tryAcquire, .lock 0, .call 1 (.acquire false), .lock 1, .call 2 (.asyncAcquire true),
    .lock 2, .reset 0 true]

theorem fifo_fairness_servedInOrder :
    Guarded (step single) (FindsNothing single) (start single fun _ => true) servedInOrder ∧
      serves (queueEvents (trace (step single) (emit single) (start single fun _ => true)
        servedInOrder)) = [.sync 1] ∧
      [.sync 1] ++ [.async 2] = lasting (queueEvents (trace (step single) (emit single)
        (start single fun _ => true) servedInOrder)) ∧
      Justified NotOvertaken (trace (step single) (emit single) (start single fun _ => true)
        servedInOrder) := by
  have hfair := fifo_fairness single (fun _ => true) servedInOrder _ rfl rfl
  have hg : Guarded (step single) (FindsNothing single) (start single fun _ => true)
      servedInOrder := by
    refine (guarded_cons rfl).mpr ⟨trivial, ?_⟩
    refine (guarded_cons rfl).mpr ⟨fun _ hw => absurd rfl hw, ?_⟩
    refine (guarded_cons rfl).mpr ⟨trivial, ?_⟩
    refine (guarded_cons rfl).mpr ⟨fun _ hw => absurd rfl hw, ?_⟩
    refine (guarded_cons rfl).mpr ⟨trivial, ?_⟩
    refine (guarded_cons rfl).mpr ⟨fun _ _ => ⟨rfl, le_rfl⟩, ?_⟩
    exact (guarded_cons rfl).mpr ⟨trivial, fun a ha => (by cases ha)⟩
  exact ⟨hg, rfl, hfair.1, hfair.2 hg⟩

/-- A holder is parked past a waiter, and the next call takes it. -/
def newcomer : List Action :=
  [.call 0 .tryAcquire, .lock 0, .call 1 (.acquire false), .lock 1, .reset 0 true,
    .relock 1 false, .call 2 .tryAcquire, .lock 2]

theorem newcomer_overtakes :
    ∃ before st, run (step minimal) (start minimal fun _ => true) newcomer = some st ∧
      st.isShutdown = false ∧
      trace (step minimal) (emit minimal) (start minimal fun _ => true) newcomer =
        before ++ [.locked 2, .took 2 0] ∧
      QueuedIn before (.sync 1) ∧ st.waiters = [.sync 1] := by
  refine ⟨[.called 0 .tryAcquire, .locked 0, .took 0 0, .called 1 (.acquire false), .locked 1,
    .enqueued (.sync 1), .called 2 .tryAcquire], _, rfl, rfl, rfl, ?_, rfl⟩
  exact ⟨List.mem_singleton_self _, List.not_mem_nil, List.not_mem_nil⟩

end Pool

end Demiplane.Postgres

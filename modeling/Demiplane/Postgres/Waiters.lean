import Demiplane.Postgres.Ownership

/-!
The queue and the holders. A call queues in two places: in its first critical
section, where it has seen an empty free list and no room for a holder, and
after a failed attempt to connect, where it looks at neither again. Meanwhile
another call may have parked a holder, or the pool may have lent none at all,
and nobody serves a queue but the release of a live holder.
-/

namespace Demiplane.Postgres

open Transition
open PoolConfig (minimal single)

/-- A call that queues when its attempt to connect fails. -/
def Call.queues : Call → Bool
  | .creating k => k ≠ .tryAcquire
  | _ => false

theorem Kind.waiter_eq_nil {k : Kind} {c : ℕ} :
    k.waiter c = [] ↔ (Call.creating k).queues = false := by
  cases k <;> simp [waiter, Call.queues]

namespace Pool

/-- `Q` holds before shutdown while a waiter is queued. -/
def WhileQueued (Q : Pool → Prop) (st : Pool) : Prop :=
  st.isShutdown = false → st.waiters ≠ [] → Q st

section WhileQueued

variable {Q : Pool → Prop} {st st' : Pool}

theorem whileQueued_of_shutdown (hs : st.isShutdown = true) : WhileQueued Q st :=
  fun hs' => absurd (hs.symm.trans hs') (by decide)

/-- The queue gets shorter or stays empty. -/
theorem WhileQueued.shrinks (h : WhileQueued Q st) (hw : st'.waiters ≠ [] → st.waiters ≠ [])
    (hQ : Q st → Q st') (hs : st'.isShutdown = st.isShutdown) : WhileQueued Q st' :=
  fun hs' hw' => hQ (h (hs ▸ hs') (hw hw'))

/-- A call queues, or gives up. -/
theorem WhileQueued.enqueue_iff {c : ℕ} {k : Kind} (h : WhileQueued Q st)
    (hQ : Q (st.enqueue k c) ↔ Q st) :
    WhileQueued Q (st.enqueue k c) ↔
      (st.isShutdown = false → (Call.creating k).queues = true → Q st) := by
  refine forall_congr' fun hs => ?_
  have hnil : st.waiters ++ k.waiter c = [] ↔
      st.waiters = [] ∧ (Call.creating k).queues = false := by
    rw [List.append_eq_nil_iff, Kind.waiter_eq_nil]
  constructor
  · intro hqueued hk
    exact hQ.mp (hqueued fun hw => by simp [(hnil.mp hw).2] at hk)
  · intro hqueues hw
    refine hQ.mpr ?_
    by_cases hempty : st.waiters = []
    · exact hqueues (by simpa [hempty] using hnil.not.mp hw)
    · exact h hs hempty

theorem waiters_of_filter {q : WaiterEntry → Bool} (hw : st.waiters.filter q ≠ []) :
    st.waiters ≠ [] :=
  fun hnil => hw (by rw [hnil]; rfl)

theorem Coherent.waiters_of_served (h : Coherent st) {w : WaiterEntry} {rest : List WaiterEntry}
    (hpop : popWaiter st.claimed st.waiters = some (w, rest)) : st.waiters ≠ [] := by
  simp [h.waiters_of_pop.2 w rest hpop]

end WhileQueued

/-! ### No holder is parked past a waiter -/

/-- While a waiter is queued the free list is empty. -/
def NoneParked : Pool → Prop := WhileQueued fun st => st.free = []

/-- A call that queues after a failed attempt to connect finds the free list
still empty. -/
def FindsNoneParked (st : Pool) : Action → Prop
  | .relock c false => st.isShutdown = false → (st.calls c).queues = true → st.free = []
  | _ => True

theorem findsNoneParked_of_shutdown {st : Pool} (hs : st.isShutdown = true) (a : Action) :
    FindsNoneParked st a := by
  unfold FindsNoneParked
  split
  · exact fun hs' => absurd (hs.symm.trans hs') (by decide)
  · trivial

/-- A step out of a state in which nothing is parked past a waiter stays there
exactly when the call that queues finds the free list empty. -/
theorem noneParked_step_iff {cfg : PoolConfig.Valid} {st st' : Pool} {a : Action}
    (hcoh : Coherent st) (h : NoneParked st) (hstep : Step cfg st a st') :
    NoneParked st' ↔ FindsNoneParked st a := by
  cases hstep with
  | @lockTook c k x rest hc hs hf =>
      refine iff_of_true (fun _ hw => ?_) trivial
      have hnone : st.free = [] := h hs hw
      rw [hf] at hnone
      cases hnone
  | lockQueued hc hs hf hcap => exact iff_of_true (fun _ _ => hf) trivial
  | relockAborted hc hk hs =>
      exact iff_of_true (whileQueued_of_shutdown hs) (findsNoneParked_of_shutdown hs _)
  | relockQueued hc hs =>
      rw [FindsNoneParked, hc]
      exact h.enqueue_iff Iff.rfl
  | wakeLeft hc hs => exact iff_of_true (h.shrinks waiters_of_filter id rfl) trivial
  | timerWon ha hc => exact iff_of_true (h.shrinks waiters_of_filter id rfl) trivial
  | resetParked hc hs hpop => exact iff_of_true (fun _ hw => absurd rfl hw) trivial
  | resetSync hc hs hpop =>
      exact iff_of_true (h.shrinks (fun _ => hcoh.waiters_of_served hpop) id rfl) trivial
  | resetAsync hc hs hpop =>
      exact iff_of_true (h.shrinks (fun _ => hcoh.waiters_of_served hpop) id rfl) trivial
  | cleared hc => exact iff_of_true (fun _ _ => rfl) trivial
  | exchanged hc => exact iff_of_true (fun hs' => by simp at hs') trivial
  | _ => exact iff_of_true h trivial

/-- In every interleaving, no holder is parked past a waiter throughout exactly
when every call that queues after a failed attempt to connect finds the free
list empty. -/
theorem noneParked_iff_findsNoneParked (cfg : PoolConfig.Valid) (attempts : ℕ → Bool)
    (as : List Action) (st : Pool) (h : run (step cfg) (start cfg attempts) as = some st) :
    Always (step cfg) NoneParked (start cfg attempts) as ↔
      Guarded (step cfg) FindsNoneParked (start cfg attempts) as := by
  refine always_iff_guarded (coherent_start cfg attempts) ?_ ?_ ?_ h
  · intro st a st' hi hstep
    exact coherent_step hi (step_cases hstep)
  · obtain ⟨n, -, hidle⟩ := start_eq cfg attempts
    rw [hidle]
    exact fun _ hw => absurd rfl hw
  · intro st a st' hi hP hstep
    exact noneParked_step_iff hi hP (step_cases hstep)

/-- The only holder is borrowed; a call fails to connect and queues. -/
def queuesAfterFailure : List Action :=
  [.call 0 .tryAcquire, .lock 0, .call 1 (.acquire false), .lock 1, .relock 1 false]

theorem noneParked_queuesAfterFailure :
    Guarded (step minimal) FindsNoneParked (start minimal fun _ => true) queuesAfterFailure ∧
      Always (step minimal) NoneParked (start minimal fun _ => true) queuesAfterFailure := by
  have hg : Guarded (step minimal) FindsNoneParked (start minimal fun _ => true)
      queuesAfterFailure := by
    iterate 4 refine (guarded_cons rfl).mpr ⟨trivial, ?_⟩
    exact (guarded_cons rfl).mpr ⟨fun _ _ => rfl, fun a ha => (by cases ha)⟩
  exact ⟨hg, (noneParked_iff_findsNoneParked minimal _ queuesAfterFailure _ rfl).mpr hg⟩

/-- While a call tries to connect, the borrower parks its holder; the call
fails and queues behind it. -/
def releasedMeanwhile : List Action :=
  [.call 0 .tryAcquire, .lock 0, .call 1 (.acquire false), .lock 1, .reset 0 true,
    .relock 1 false]

theorem releasedMeanwhile_parks_past_waiter :
    ∃ st, run (step minimal) (start minimal fun _ => true) releasedMeanwhile = some st ∧
      st.isShutdown = false ∧ st.waiters = [.sync 1] ∧ st.free = [0] :=
  ⟨_, rfl, rfl, rfl, rfl⟩

/-! ### No waiter is stranded -/

/-- While a waiter is queued some holder is assigned to a waiter, carried by a
handler or borrowed. -/
def NoneStranded : Pool → Prop := WhileQueued fun st => ∃ x p, st.At x p ∧ p ≠ .free

/-- The holders that are not in the free list are the ones somebody has. -/
theorem Invariant.lent_iff {st : Pool} (h : Invariant st) (hs : st.isShutdown = false) :
    (∃ x p, st.At x p ∧ p ≠ .free) ↔ 0 < st.activeCount := by
  have howned := h.owned hs
  rw [h.activeCount_eq hs, List.length_filter_pos_iff]
  constructor
  · rintro ⟨x, p, hat, hp⟩
    exact ⟨x, howned.held.booked hat,
      decide_eq_true fun hin => hp (howned.held.unique hat (q := .free) hin)⟩
  · rintro ⟨x, hx, hnot⟩
    obtain ⟨p, hat⟩ := howned.held.found hx
    refine ⟨x, p, hat, ?_⟩
    rintro rfl
    simp [show x ∈ st.free from hat] at hnot

theorem Invariant.noneStranded_iff {st : Pool} (h : Invariant st) :
    NoneStranded st ↔ WhileQueued (fun st => 0 < st.activeCount) st :=
  forall_congr' fun hs => forall_congr' fun _ => h.lent_iff hs

/-- A call that queues after a failed attempt to connect finds a holder lent,
and a dead holder is dropped while the queue is empty or another holder is
lent. -/
def FindsLender (st : Pool) : Action → Prop
  | .relock c false =>
      st.isShutdown = false → (st.calls c).queues = true → 0 < st.activeCount
  | .reset _ false => st.isShutdown = false → st.waiters ≠ [] → 1 < st.activeCount
  | _ => True

theorem findsLender_of_shutdown {st : Pool} (hs : st.isShutdown = true) (a : Action) :
    FindsLender st a := by
  unfold FindsLender
  split
  · exact fun hs' => absurd (hs.symm.trans hs') (by decide)
  · exact fun hs' => absurd (hs.symm.trans hs') (by decide)
  · trivial

/-- A step out of a state with no stranded waiter leads to another exactly when
it finds a lender. -/
theorem noneStranded_step_iff {cfg : PoolConfig.Valid} {st st' : Pool} {a : Action}
    (hinv : Invariant st) (h : NoneStranded st) (hstep : Step cfg st a st') :
    NoneStranded st' ↔ FindsLender st a := by
  rw [hinv.noneStranded_iff] at h
  rw [(invariant_step hinv hstep).noneStranded_iff]
  have hcoh := hinv.coherent
  have hfree (hs : st.isShutdown = false) : st.free.length ≤ st.created := by
    have := (hinv.owned hs).length_lent
    have := hinv.counted hs
    omega
  cases hstep with
  | @lockTook c k x rest hc hs hf =>
      refine iff_of_true (fun _ _ => ?_) trivial
      have := hfree hs
      simp only [hf, List.length_cons] at this
      simp only [activeCount, deliver]
      omega
  | lockQueued hc hs hf hcap =>
      refine iff_of_true (fun _ _ => ?_) trivial
      have := cfg.capacity_pos
      simp only [activeCount, enqueue, hf, List.length_nil]
      omega
  | relockAborted hc hk hs =>
      exact iff_of_true (whileQueued_of_shutdown hs) (findsLender_of_shutdown hs _)
  | relockCreated hc hs =>
      refine iff_of_true (fun hs' _ => ?_) trivial
      have := hfree hs'
      simp only [activeCount, deliver]
      omega
  | relockQueued hc hs =>
      rw [FindsLender, hc]
      exact h.enqueue_iff Iff.rfl
  | wakeLeft hc hs => exact iff_of_true (h.shrinks waiters_of_filter id rfl) trivial
  | timerWon ha hc => exact iff_of_true (h.shrinks waiters_of_filter id rfl) trivial
  | resetLate hc hs =>
      exact iff_of_true (whileQueued_of_shutdown hs) (findsLender_of_shutdown hs _)
  | resetParked hc hs hpop => exact iff_of_true (fun _ hw => absurd rfl hw) trivial
  | resetSync hc hs hpop =>
      exact iff_of_true (h.shrinks (fun _ => hcoh.waiters_of_served hpop) id rfl) trivial
  | resetAsync hc hs hpop =>
      exact iff_of_true (h.shrinks (fun _ => hcoh.waiters_of_served hpop) id rfl) trivial
  | resetDropped hc hs hh =>
      refine forall_congr' fun _ => forall_congr' fun _ => ?_
      simp only [activeCount, setCall]
      omega
  | resetUnknown hc hs hh =>
      exact absurd ((hinv.owned hs).held.booked (at_of_place (by rw [hc]; rfl))) hh
  | exchanged hc => exact iff_of_true (fun hs' => by simp at hs') trivial
  | cleared hc => exact iff_of_true (fun _ hw => absurd rfl hw) trivial
  | _ => exact iff_of_true h trivial

/-- In every interleaving, no waiter is stranded throughout exactly when every
call that queues after a failed attempt to connect and every release of a dead
holder finds a lender. -/
theorem noneStranded_iff_findsLender (cfg : PoolConfig.Valid) (attempts : ℕ → Bool)
    (as : List Action) (st : Pool) (h : run (step cfg) (start cfg attempts) as = some st) :
    Always (step cfg) NoneStranded (start cfg attempts) as ↔
      Guarded (step cfg) FindsLender (start cfg attempts) as := by
  refine always_iff_guarded (invariant_start cfg attempts) ?_ ?_ ?_ h
  · intro st a st' hi hstep
    exact invariant_step hi (step_cases hstep)
  · obtain ⟨n, -, hidle⟩ := start_eq cfg attempts
    rw [hidle]
    exact fun _ hw => absurd rfl hw
  · intro st a st' hi hP hstep
    exact noneStranded_step_iff hi hP (step_cases hstep)

theorem noneStranded_queuesAfterFailure :
    Guarded (step minimal) FindsLender (start minimal fun _ => true) queuesAfterFailure ∧
      Always (step minimal) NoneStranded (start minimal fun _ => true) queuesAfterFailure := by
  have hg : Guarded (step minimal) FindsLender (start minimal fun _ => true)
      queuesAfterFailure := by
    iterate 4 refine (guarded_cons rfl).mpr ⟨trivial, ?_⟩
    exact (guarded_cons rfl).mpr ⟨fun _ _ => (by decide), fun a ha => (by cases ha)⟩
  exact ⟨hg, (noneStranded_iff_findsLender minimal _ queuesAfterFailure _ rfl).mpr hg⟩

/-- The only holder turns out to be dead when it is released. -/
def deadRelease : List Action :=
  [.call 0 .tryAcquire, .lock 0, .call 1 (.acquire false), .lock 1, .reset 0 false]

theorem deadRelease_strands_waiter :
    ∃ st, run (step single) (start single fun _ => true) deadRelease = some st ∧
      st.isShutdown = false ∧ st.waiters = [.sync 1] ∧ st.holders = [] ∧ st.posts = [] ∧
      st.handlers = [] ∧ ∀ c, (st.calls c).place c = none := by
  refine ⟨_, rfl, rfl, rfl, rfl, rfl, rfl, fun c => ?_⟩
  match c with
  | 0 => rfl
  | 1 => rfl
  | n + 2 => rfl

end Pool

end Demiplane.Postgres

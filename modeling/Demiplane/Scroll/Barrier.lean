import Mathlib.Algebra.Order.BigOperators.Group.Finset
import Demiplane.Scroll.Refinement

/-!
The flush barrier of `shutdown()`. Strands are serial, so a flush that has run
on a strand ran after every batch posted there before; and no batch is posted
after the consumer has exited. A thread that waits for its flushes counts at
least those that have not run, which is why the count reaches zero only when
every strand is done with its batches.
-/

namespace Demiplane.Scroll

open Disruptor RingProtocol Transition

variable {M : Type*}

def Task.isFlush (p : ℕ) : Task M → Bool
  | .flush q => q == p
  | .processBatch _ => false

/-- The flushes of thread `p` that have not run on the strand. -/
def Strand.flushes (p : ℕ) (s : Strand M) : ℕ := s.tasks.countP (Task.isFlush p)

/-- The flushes of thread `p` that have not run on any of `n` strands. -/
def pending (n : ℕ) (strands : ℕ → Strand M) (p : ℕ) : ℕ :=
  ∑ k ∈ Finset.range n, (strands k).flushes p

@[simp] theorem Strand.flushes_post_flush (s : Strand M) (p q : ℕ) :
    (s.post (.flush q)).flushes p = s.flushes p + if q = p then 1 else 0 := by
  simp [Strand.flushes, Task.isFlush, List.countP_cons]

@[simp] theorem Strand.flushes_post_processBatch (s : Strand M) (p : ℕ)
    (batch : List (LogEvent M)) : (s.post (.processBatch batch)).flushes p = s.flushes p := by
  simp [Strand.flushes, Task.isFlush]

theorem pending_update {n k : ℕ} (hk : k < n) (strands : ℕ → Strand M) (s : Strand M)
    (p : ℕ) : pending n (Function.update strands k s) p + (strands k).flushes p =
      pending n strands p + s.flushes p := by
  have hmem : k ∈ Finset.range n := Finset.mem_range.mpr hk
  have hrest : ∑ j ∈ (Finset.range n).erase k, (Function.update strands k s j).flushes p =
      ∑ j ∈ (Finset.range n).erase k, (strands j).flushes p := by
    refine Finset.sum_congr rfl fun j hj => ?_
    rw [Function.update_of_ne (Finset.ne_of_mem_erase hj)]
  rw [pending, pending, ← Finset.add_sum_erase _ _ hmem, hrest, Function.update_self,
    ← Finset.add_sum_erase _ (fun j => (strands j).flushes p) hmem]
  omega

theorem flushes_le_pending {n k : ℕ} (hk : k < n) (strands : ℕ → Strand M) (p : ℕ) :
    (strands k).flushes p ≤ pending n strands p :=
  Finset.single_le_sum (f := fun j => (strands j).flushes p) (fun _ _ => Nat.zero_le _)
    (Finset.mem_range.mpr hk)

/-- Past the `join()` of the consumer. -/
def Thread.joined : Thread M → Bool
  | .flush _ _ | .poolJoin | .store => true
  | _ => false

/-- Where thread `p` stands with its flushes. -/
def Thread.Waits (n : ℕ) (strands : ℕ → Strand M) (p : ℕ) : Thread M → Prop
  | .flush next remaining =>
      (∀ k < next, (strands k).flushes p ≠ 0 ∨ (strands k).batches = []) ∧
        n - next + pending n strands p ≤ remaining
  | .poolJoin | .store => pending n strands p = 0 ∧ ∀ k < n, (strands k).batches = []
  | _ => pending n strands p = 0

/-- The tasks of a strand whose batches come before its flushes. -/
def Strand.Ordered (s : Strand M) : Prop :=
  s.tasks.Pairwise fun a b => b.batch?.isSome = true → a.batch?.isSome = true

structure Barrier (cfg : Config) (st : Logger M) : Prop where
  exited : ∀ p, (st.threads p).joined = true → st.consumer = .exited
  unflushed : st.consumer ≠ .exited → ∀ k p, (st.strands k).flushes p = 0
  ordered : ∀ k, (st.strands k).Ordered
  waits : ∀ p, (st.threads p).Waits cfg.sinks st.strands p

theorem barrier_start (cfg : Config) (captured : M) : Barrier cfg (Logger.start captured) where
  exited p h := by simp [Logger.start, Thread.joined] at h
  unflushed _ _ _ := rfl
  ordered _ := List.Pairwise.nil
  waits p := Finset.sum_eq_zero fun _ _ => rfl

/-- Strands that have lost nothing but batches. -/
theorem Thread.Waits.mono {n p : ℕ} {strands strands' : ℕ → Strand M} {t : Thread M}
    (h : t.Waits n strands p)
    (hflushes : ∀ k, (strands' k).flushes p = (strands k).flushes p)
    (hbatches : ∀ k, (strands k).batches = [] → (strands' k).batches = []) :
    t.Waits n strands' p := by
  have hpending : pending n strands' p = pending n strands p :=
    Finset.sum_congr rfl fun k _ => hflushes k
  cases t with
  | flush next remaining =>
      refine ⟨fun k hk => ?_, by rw [hpending]; exact h.2⟩
      rw [hflushes k]
      exact (h.1 k hk).imp_right (hbatches k)
  | poolJoin => exact ⟨by rw [hpending]; exact h.1, fun k hk => hbatches k (h.2 k hk)⟩
  | store => exact ⟨by rw [hpending]; exact h.1, fun k hk => hbatches k (h.2 k hk)⟩
  | _ => exact hpending.trans h

/-- A thread that has not joined the consumer waits for no flush. -/
theorem Thread.waits_iff_of_not_joined {n p : ℕ} {strands : ℕ → Strand M} {t : Thread M}
    (ht : t.joined = false) : t.Waits n strands p ↔ pending n strands p = 0 := by
  cases t with
  | flush next remaining => simp [Thread.joined] at ht
  | poolJoin => simp [Thread.joined] at ht
  | store => simp [Thread.joined] at ht
  | _ => rfl

namespace Barrier

variable {cfg : Config} {st st' : Logger M}

/-- A thread goes on, the strands and the consumer as they are. -/
theorem thread (h : Barrier cfg st) {p : ℕ} {t : Thread M}
    (hthreads : st'.threads = Function.update st.threads p t)
    (hconsumer : st'.consumer = st.consumer) (hstrands : st'.strands = st.strands)
    (hjoined : t.joined = true → st.consumer = .exited)
    (hself : t.Waits cfg.sinks st.strands p) : Barrier cfg st' where
  exited q hq := by
    rw [hconsumer]
    rw [hthreads] at hq
    by_cases hqp : q = p
    · subst hqp
      exact hjoined (by simpa using hq)
    · exact h.exited q (by simpa [hqp] using hq)
  unflushed := by rw [hconsumer, hstrands]; exact h.unflushed
  ordered := by rw [hstrands]; exact h.ordered
  waits q := by
    rw [hthreads, hstrands]
    by_cases hqp : q = p
    · subst hqp
      simpa using hself
    · simpa [hqp] using h.waits q

/-- The same for a thread that has not joined the consumer, before and after. -/
theorem thread_local (h : Barrier cfg st) {p : ℕ} {t : Thread M}
    (hthreads : st'.threads = Function.update st.threads p t)
    (hconsumer : st'.consumer = st.consumer) (hstrands : st'.strands = st.strands)
    (hbefore : (st.threads p).joined = false) (ht : t.joined = false) : Barrier cfg st' :=
  h.thread hthreads hconsumer hstrands (by simp [ht])
    ((Thread.waits_iff_of_not_joined ht).mpr
      ((Thread.waits_iff_of_not_joined hbefore).mp (h.waits p)))

/-- The consumer goes on, the threads and the strands as they are. -/
theorem consumer_step (h : Barrier cfg st) (hc : st.consumer ≠ .exited)
    (hthreads : st'.threads = st.threads) (hstrands : st'.strands = st.strands) :
    Barrier cfg st' where
  exited p hp := by
    rw [hthreads] at hp
    exact absurd (h.exited p hp) hc
  unflushed _ := by rw [hstrands]; exact h.unflushed hc
  ordered := by rw [hstrands]; exact h.ordered
  waits := by rw [hthreads, hstrands]; exact h.waits

/-- The consumer posts a batch. Nobody has posted a flush yet. -/
theorem post_batch (h : Barrier cfg st) (hc : st.consumer ≠ .exited) {k : ℕ}
    {batch : List (LogEvent M)} (hthreads : st'.threads = st.threads)
    (hstrands : st'.strands =
      Function.update st.strands k ((st.strands k).post (.processBatch batch))) :
    Barrier cfg st' where
  exited p hp := by
    rw [hthreads] at hp
    exact absurd (h.exited p hp) hc
  unflushed _ j p := by
    rw [hstrands]
    by_cases hj : j = k
    · subst hj
      simpa using h.unflushed hc j p
    · simpa [hj] using h.unflushed hc j p
  ordered j := by
    rw [hstrands]
    by_cases hj : j = k
    · subst hj
      rw [Function.update_self, Strand.Ordered, Strand.tasks_post, List.pairwise_append]
      refine ⟨h.ordered j, List.pairwise_singleton _ _, fun a ha b _ _ => ?_⟩
      cases a with
      | processBatch b => rfl
      | flush p =>
          have hnone := List.countP_eq_zero.mp (h.unflushed hc j p) _ ha
          simp [Task.isFlush] at hnone
    · simpa [hj] using h.ordered j
  waits p := by
    have hp : (st.threads p).joined = false := by
      by_contra hj
      exact hc (h.exited p (by simpa using hj))
    have hzero := (Thread.waits_iff_of_not_joined hp).mp (h.waits p)
    rw [hthreads, Thread.waits_iff_of_not_joined hp, hstrands, ← hzero]
    refine Finset.sum_congr rfl fun j _ => ?_
    by_cases hj : j = k
    · subst hj
      simp
    · simp [hj]

/-- A thread that waits posts its flush to the next strand. -/
theorem post_flush (h : Barrier cfg st) {p next remaining : ℕ}
    (hp : st.threads p = .flush next remaining) (hnext : next < cfg.sinks)
    (hthreads : st'.threads = Function.update st.threads p (.flush (next + 1) remaining))
    (hconsumer : st'.consumer = st.consumer)
    (hstrands : st'.strands =
      Function.update st.strands next ((st.strands next).post (.flush p))) :
    Barrier cfg st' := by
  have hexited : st.consumer = .exited := h.exited p (by rw [hp]; rfl)
  refine ⟨fun q _ => hconsumer.trans hexited, fun hne => absurd (hconsumer.trans hexited) hne,
    fun j => ?_, fun q => ?_⟩
  · rw [hstrands]
    by_cases hj : j = next
    · subst hj
      rw [Function.update_self, Strand.Ordered, Strand.tasks_post, List.pairwise_append]
      refine ⟨h.ordered j, List.pairwise_singleton _ _, fun a _ b hb => ?_⟩
      obtain rfl := List.mem_singleton.mp hb
      simp [Task.batch?]
    · simpa [hj] using h.ordered j
  · rw [hthreads, hstrands]
    have hw := h.waits q
    by_cases hq : q = p
    · subst hq
      rw [hp] at hw
      rw [Function.update_self]
      refine ⟨fun k hk => ?_, ?_⟩
      · by_cases hkn : k = next
        · subst hkn
          left
          simp
        · rw [Function.update_of_ne hkn]
          exact hw.1 k (by omega)
      · have hsum := pending_update hnext st.strands ((st.strands next).post (.flush q)) q
        have hle := hw.2
        rw [Strand.flushes_post_flush, if_pos rfl] at hsum
        omega
    · rw [Function.update_of_ne hq]
      refine hw.mono (fun k => ?_) (fun k hk => ?_)
      · by_cases hkn : k = next
        · subst hkn
          simp [Ne.symm hq]
        · simp [hkn]
      · by_cases hkn : k = next
        · subst hkn
          simpa using hk
        · simpa [hkn] using hk

/-- When the count has reached zero, every strand is done with its batches. -/
theorem drained_of_counted (h : Barrier cfg st) {p next : ℕ}
    (hp : st.threads p = .flush next 0) (hnext : ¬ next < cfg.sinks) :
    pending cfg.sinks st.strands p = 0 ∧ ∀ k < cfg.sinks, (st.strands k).batches = [] := by
  have hw := h.waits p
  rw [hp] at hw
  have hzero : pending cfg.sinks st.strands p = 0 := by
    have := hw.2
    omega
  refine ⟨hzero, fun k hk => ?_⟩
  have hle := flushes_le_pending hk st.strands p
  exact (hw.1 k (by omega)).resolve_left (by omega)

/-- A strand begins with a task: its tasks are what they were. -/
theorem start_task (h : Barrier cfg st) (hthreads : st'.threads = st.threads)
    (hconsumer : st'.consumer = st.consumer)
    (htasks : ∀ k, (st'.strands k).tasks = (st.strands k).tasks) : Barrier cfg st' where
  exited := by rw [hthreads, hconsumer]; exact h.exited
  unflushed hc k p := by
    rw [Strand.flushes, htasks]
    exact h.unflushed (hconsumer ▸ hc) k p
  ordered k := by
    rw [Strand.Ordered, htasks]
    exact h.ordered k
  waits p := by
    rw [hthreads]
    refine (h.waits p).mono (fun k => ?_) (fun k hk => ?_)
    · rw [Strand.flushes, Strand.flushes, htasks]
    · rwa [Strand.batches, htasks]

/-- What is left of a strand that has ended a task. -/
theorem ordered_tail (h : Barrier cfg st) {k : ℕ} {t : Task M} {s : Strand M}
    (hk : (st.strands k).tasks = t :: s.tasks) (j : ℕ) :
    (Function.update st.strands k s j).Ordered := by
  by_cases hj : j = k
  · subst hj
    have hord := h.ordered j
    rw [Strand.Ordered, hk, List.pairwise_cons] at hord
    rw [Function.update_self]
    exact hord.2
  · rw [Function.update_of_ne hj]
    exact h.ordered j

theorem flushes_tail {strands : ℕ → Strand M} {k : ℕ} {t : Task M} {s : Strand M}
    (hk : (strands k).tasks = t :: s.tasks) {p : ℕ} (ht : t.isFlush p = false) (j : ℕ) :
    (Function.update strands k s j).flushes p = (strands j).flushes p := by
  by_cases hj : j = k
  · subst hj
    rw [Function.update_self, Strand.flushes, Strand.flushes, hk,
      List.countP_cons_of_neg (by simp [ht])]
  · rw [Function.update_of_ne hj]

theorem batches_tail {strands : ℕ → Strand M} {k : ℕ} {t : Task M} {s : Strand M}
    (hk : (strands k).tasks = t :: s.tasks) (j : ℕ) (hj : (strands j).batches = []) :
    (Function.update strands k s j).batches = [] := by
  by_cases hjk : j = k
  · subst hjk
    rw [Strand.batches, hk, List.filterMap_cons] at hj
    rw [Function.update_self, Strand.batches]
    split at hj
    · exact hj
    · cases hj
  · rwa [Function.update_of_ne hjk]

theorem finish_batch (h : Barrier cfg st) {k : ℕ} {batch : List (LogEvent M)} {s : Strand M}
    (hk : (st.strands k).tasks = .processBatch batch :: s.tasks)
    (hthreads : st'.threads = st.threads) (hconsumer : st'.consumer = st.consumer)
    (hstrands : st'.strands = Function.update st.strands k s) : Barrier cfg st' where
  exited := by rw [hthreads, hconsumer]; exact h.exited
  unflushed hc j p := by
    rw [hstrands, flushes_tail hk rfl]
    exact h.unflushed (hconsumer ▸ hc) j p
  ordered := by rw [hstrands]; exact h.ordered_tail hk
  waits p := by
    rw [hthreads, hstrands]
    exact (h.waits p).mono (flushes_tail hk rfl) (batches_tail hk)

/-- A flush runs: the strand has no batch left, and the thread that waits for
it has one flush less to wait for. -/
theorem finish_flush (h : Barrier cfg st) {k p : ℕ} {s : Strand M} (hks : k < cfg.sinks)
    (hk : (st.strands k).tasks = .flush p :: s.tasks)
    (hthreads : st'.threads = Function.update st.threads p (st.threads p).countDown)
    (hconsumer : st'.consumer = st.consumer)
    (hstrands : st'.strands = Function.update st.strands k s) : Barrier cfg st' := by
  have hcount : (st.strands k).flushes p = s.flushes p + 1 := by
    rw [Strand.flushes, hk, List.countP_cons_of_pos (by simp [Task.isFlush]), Strand.flushes]
  have hexited : st.consumer = .exited := by
    by_contra hc
    have := h.unflushed hc k p
    omega
  refine ⟨fun q _ => hconsumer.trans hexited, fun hne => absurd (hconsumer.trans hexited) hne,
    by rw [hstrands]; exact h.ordered_tail hk, fun q => ?_⟩
  -- the batches of the strand came before the flush
  have hdone : s.batches = [] := by
    have hord := h.ordered k
    rw [Strand.Ordered, hk, List.pairwise_cons] at hord
    refine List.filterMap_eq_nil_iff.mpr fun t ht => ?_
    have hnot := hord.1 t ht
    cases hb : t.batch? with
    | none => rfl
    | some batch =>
        have hhead := hnot (by rw [hb]; rfl)
        simp [Task.batch?] at hhead
  rw [hthreads, hstrands]
  have hw := h.waits q
  by_cases hq : q = p
  · subst hq
    rw [Function.update_self]
    have hsum := pending_update hks st.strands s q
    have hpos := flushes_le_pending hks st.strands q
    cases ht : st.threads q with
    | flush next remaining =>
        rw [ht] at hw
        refine ⟨fun j hj => ?_, ?_⟩
        · by_cases hjk : j = k
          · subst hjk
            rw [Function.update_self]
            exact .inr hdone
          · rw [Function.update_of_ne hjk]
            exact hw.1 j hj
        · have := hw.2
          omega
    | poolJoin =>
        rw [ht] at hw
        have := hw.1
        omega
    | store =>
        rw [ht] at hw
        have := hw.1
        omega
    | _ =>
        rw [ht, Thread.waits_iff_of_not_joined rfl] at hw
        omega
  · rw [Function.update_of_ne hq]
    exact hw.mono (flushes_tail hk (by simp [Task.isFlush, Ne.symm hq])) (batches_tail hk)

end Barrier

/-! ### The whole logger -/

/-- The logger represents some protocol state, and its barrier stands. -/
structure Invariant (cfg : Config) (st : Logger M) (tr : List (Occurrence M)) : Prop where
  represents : ∃ d, Represents cfg st d tr
  barrier : Barrier cfg st

theorem invariant_start (cfg : Config) (captured : M) :
    Invariant cfg (Logger.start captured) [] :=
  ⟨⟨init, represents_start cfg captured⟩, barrier_start cfg captured⟩

section Step

variable {cfg : Config} {st st' : Logger M} {tr : List (Occurrence M)}

/-- What a step of the consumer does to the strands. -/
theorem consume_strands {residue : List UInt8} (h : st.consume cfg residue = some st') :
    st.consumer ≠ .exited ∧ st'.threads = st.threads ∧
      (st'.strands = st.strands ∨ ∃ k batch, st'.strands =
        Function.update st.strands k ((st.strands k).post (.processBatch batch))) := by
  cases hc : st.consumer with
  | exited => simp [Logger.consume, hc] at h
  | post nextSeq sink batch =>
      refine ⟨by simp, ?_⟩
      simp only [Logger.consume, hc] at h
      split at h <;> obtain rfl := Option.some.inj h
      · exact ⟨rfl, .inr ⟨sink, batch, rfl⟩⟩
      · exact ⟨rfl, .inl rfl⟩
  | _ =>
      refine ⟨by simp, ?_⟩
      simp only [Logger.consume, hc] at h
      repeat' split at h
      all_goals cases h
      all_goals exact ⟨rfl, .inl rfl⟩

theorem Barrier.consume {residue : List UInt8} (h : Barrier cfg st)
    (hstep : st.consume cfg residue = some st') : Barrier cfg st' := by
  obtain ⟨hc, hthreads, hstrands | ⟨k, batch, hstrands⟩⟩ := consume_strands hstep
  · exact h.consumer_step hc hthreads hstrands
  · exact h.post_batch hc hthreads hstrands

/-- A step inside the sequencer changes the memory and one thread, which is
not past its `join()` before or after. -/
theorem Barrier.send {p : ℕ} {a : Move} (h : Barrier cfg st)
    (hstep : st.send cfg p a = some st') : Barrier cfg st' := by
  cases ht : st.threads p with
  | log call seq q =>
      simp only [Logger.send, ht, Option.map_eq_some_iff] at hstep
      obtain ⟨⟨m', q'⟩, -, rfl⟩ := hstep
      refine h.thread_local rfl rfl rfl (by rw [ht]; rfl) ?_
      cases q' <;> rfl
  | marker seq q =>
      simp only [Logger.send, ht, Option.map_eq_some_iff] at hstep
      obtain ⟨⟨m', q'⟩, -, rfl⟩ := hstep
      refine h.thread_local rfl rfl rfl (by rw [ht]; rfl) ?_
      cases q' <;> rfl
  | _ => simp [Logger.send, ht] at hstep

theorem invariant_proceed {p : ℕ} (h : Invariant cfg st tr)
    (hstep : st.proceed cfg p = some st') :
    Invariant cfg st' (tr ++ st.emit cfg (.proceed p)) := by
  obtain ⟨⟨d, hd⟩, hb⟩ := h
  have hk := hd.threads p
  have hw := hb.waits p
  cases ht : st.threads p with
  | load =>
      simp only [Logger.proceed, ht] at hstep
      simp only [Logger.emit, ht]
      split at hstep
      · rename_i hr
        obtain rfl := Option.some.inj hstep
        simp only [hr, if_true]
        refine ⟨⟨d, hd.local_step (t := .marker 0 (.loadCursor .next)) (begins_next _ p d _)
          rfl rfl rfl rfl (fun _ => rfl) rfl rfl (fun _ => rfl)⟩, ?_⟩
        exact hb.thread_local rfl rfl rfl (by rw [ht]; rfl) rfl
      · rename_i hr
        obtain rfl := Option.some.inj hstep
        simp only [hr]
        refine ⟨⟨d, hd.local_step (t := .idle) trivial rfl rfl rfl rfl (fun _ => rfl) rfl rfl
          (fun _ => rfl)⟩, ?_⟩
        exact hb.thread_local rfl rfl rfl (by rw [ht]; rfl) rfl
  | join =>
      rw [ht] at hk hw
      simp only [Logger.proceed, ht] at hstep
      simp only [Logger.emit, ht]
      split at hstep
      · rename_i hc
        obtain rfl := Option.some.inj hstep
        refine ⟨⟨d, hd.local_step (t := .flush 0 cfg.sinks) hk rfl rfl rfl rfl (fun _ => rfl) rfl
          rfl (fun _ => rfl)⟩, ?_⟩
        refine hb.thread rfl rfl rfl (fun _ => hc) ⟨fun k hk => by omega, ?_⟩
        have hzero : pending cfg.sinks st.strands p = 0 := hw
        omega
      · cases hstep
  | flush next remaining =>
      rw [ht] at hk
      simp only [Logger.proceed, ht] at hstep
      simp only [Logger.emit, ht]
      split at hstep
      · rename_i hnext
        obtain rfl := Option.some.inj hstep
        refine ⟨⟨d, hd.local_step (t := .flush (next + 1) remaining) hk rfl rfl rfl rfl ?_ rfl rfl
          (fun _ => rfl)⟩, hb.post_flush ht hnext rfl rfl rfl⟩
        intro k
        by_cases hkn : k = next
        · subst hkn
          simp [Logger.postTo, Logger.setThread]
        · simp [Logger.postTo, Logger.setThread, hkn]
      · rename_i hnext
        split at hstep
        · rename_i hzero
          obtain rfl := Option.some.inj hstep
          refine ⟨⟨d, hd.local_step (t := .poolJoin) hk rfl rfl rfl rfl (fun _ => rfl) rfl rfl
            (fun _ => rfl)⟩, ?_⟩
          exact hb.thread rfl rfl rfl (fun _ => hb.exited p (by rw [ht]; rfl))
            (hb.drained_of_counted (hzero ▸ ht) hnext)
        · cases hstep
  | poolJoin =>
      rw [ht] at hk hw
      have hexited := hb.exited p (by rw [ht]; rfl)
      simp only [Logger.emit, ht]
      have hst' : st'.memory = st.memory ∧ st'.threads = Function.update st.threads p .store ∧
          st'.consumer = st.consumer ∧ st'.running = st.running ∧ st'.strands = st.strands := by
        simp only [Logger.proceed, ht] at hstep
        repeat' split at hstep
        all_goals cases hstep
        all_goals exact ⟨rfl, rfl, rfl, rfl, rfl⟩
      obtain ⟨h1, h2, h3, h4, h5⟩ := hst'
      exact ⟨⟨d, hd.local_step (t := .store) hk h1 h2 h3 h4 (fun k => by rw [h5]) rfl rfl
        (fun _ => rfl)⟩, hb.thread h2 h3 h5 (fun _ => hexited) hw⟩
  | store =>
      rw [ht] at hw
      have hexited := hb.exited p (by rw [ht]; rfl)
      have hphase := hd.phase
      rw [hexited] at hphase
      simp only [Logger.proceed, ht, Option.some.injEq] at hstep
      subst hstep
      simp only [Logger.emit, ht]
      refine ⟨⟨d, hd.local_step (t := .idle) trivial rfl rfl rfl hphase.1.symm (fun _ => rfl) rfl
        rfl (fun _ => rfl)⟩, ?_⟩
      exact hb.thread rfl rfl rfl (fun hj => by cases hj) hw.1
  | _ => simp [Logger.proceed, ht] at hstep

theorem invariant_strandStart {k : ℕ} (h : Invariant cfg st tr)
    (hstep : st.strandStart cfg k = some st') : Invariant cfg st' (tr ++ []) := by
  obtain ⟨⟨d, hd⟩, hb⟩ := h
  simp only [Logger.strandStart] at hstep
  split at hstep
  · split at hstep
    · rename_i t queue hs
      obtain rfl := Option.some.inj hstep
      have htasks : ∀ j, (Function.update st.strands k ⟨some t, queue⟩ j).tasks =
          (st.strands j).tasks := by
        intro j
        by_cases hj : j = k
        · subst hj
          simp [hs, Strand.tasks]
        · rw [Function.update_of_ne hj]
      refine ⟨⟨d, hd.consumer_local rfl rfl hd.consumer hd.phase fun j hj => ?_⟩,
        hb.start_task rfl rfl htasks⟩
      rw [Strand.batches, htasks]
      exact hd.pipeline j hj
    · cases hstep
  · cases hstep

theorem invariant_strandFinish {k : ℕ} (h : Invariant cfg st tr)
    (hstep : st.strandFinish cfg k = some st') :
    Invariant cfg st' (tr ++ st.emit cfg (.strandFinish k)) := by
  obtain ⟨⟨d, hd⟩, hb⟩ := h
  simp only [Logger.strandFinish] at hstep
  split at hstep
  · rename_i hk
    split at hstep
    · rename_i batch queue hs
      obtain rfl := Option.some.inj hstep
      have htasks : (st.strands k).tasks =
          .processBatch batch :: (⟨none, queue⟩ : Strand M).tasks := by
        simp [hs, Strand.tasks]
      simp only [Logger.emit, hs]
      refine ⟨⟨d, hd.ring.quiet _ rfl hd.ring.memory rfl rfl rfl,
        fun p => (hd.threads p).frame _ (Frame.refl p d), hd.consumer, hd.phase,
        fun j hj => ?_⟩, hb.finish_batch htasks rfl rfl rfl⟩
      rw [← hd.pipeline j hj, batchesOf_append]
      by_cases hjk : j = k
      · subst hjk
        simp [batchesOf, hs, Strand.batches_active_processBatch]
      · simp [batchesOf, Ne.symm hjk, Function.update_of_ne hjk]
    · rename_i p queue hs
      obtain rfl := Option.some.inj hstep
      have htasks : (st.strands k).tasks =
          .flush p :: (⟨none, queue⟩ : Strand M).tasks := by
        simp [hs, Strand.tasks]
      simp only [Logger.emit, hs]
      refine ⟨⟨d, hd.local_step ?_ rfl rfl rfl rfl (fun j => ?_) rfl rfl (fun _ => rfl)⟩,
        hb.finish_flush hk.1 htasks rfl rfl rfl⟩
      · have hp := hd.threads p
        cases ht : st.threads p <;> rw [ht] at hp <;> exact hp
      · by_cases hjk : j = k
        · subst hjk
          simp [Logger.setThread, hs, Strand.batches_active_flush]
        · simp [Logger.setThread, Function.update_of_ne hjk]
    · cases hstep
  · cases hstep

theorem invariant_step (st : Logger M) (tr : List (Occurrence M)) (a : Action M)
    (st' : Logger M) (h : Invariant cfg st tr) (hstep : st.step cfg a = some st') :
    Invariant cfg st' (tr ++ st.emit cfg a) := by
  cases a with
  | callLog p call =>
      obtain ⟨⟨d, hd⟩, hb⟩ := h
      cases ht : st.threads p <;> simp only [Logger.step, ht] at hstep <;> cases hstep
      exact ⟨⟨d, hd.local_step (t := .log call 0 (.loadCursor .next)) (begins_next _ p d _)
        rfl rfl rfl rfl (fun _ => rfl) rfl rfl (fun _ => rfl)⟩,
        hb.thread_local rfl rfl rfl (by rw [ht]; rfl) rfl⟩
  | callShutdown p =>
      obtain ⟨⟨d, hd⟩, hb⟩ := h
      cases ht : st.threads p <;> simp only [Logger.step, ht] at hstep <;> cases hstep
      exact ⟨⟨d, hd.local_step (t := .load) trivial
        rfl rfl rfl rfl (fun _ => rfl) rfl rfl (fun _ => rfl)⟩,
        hb.thread_local rfl rfl rfl (by rw [ht]; rfl) rfl⟩
  | send p a =>
      obtain ⟨⟨d, hd⟩, hb⟩ := h
      exact ⟨represents_send hd hstep, hb.send hstep⟩
  | proceed p => exact invariant_proceed h hstep
  | consumer residue =>
      obtain ⟨⟨d, hd⟩, hb⟩ := h
      exact ⟨represents_consume hd hstep, hb.consume hstep⟩
  | strandStart k => exact invariant_strandStart h hstep
  | strandFinish k => exact invariant_strandFinish h hstep

/-- What the logger has shown after the actions `as`. -/
def observed (cfg : Config) (captured : M) (as : List (Action M)) : List (Occurrence M) :=
  trace (Logger.step cfg) (Logger.emit cfg) (Logger.start captured) as

/-- Every interleaving of the threads, the consumer and the strands keeps the
invariant. -/
theorem invariant_of_run {captured : M} {as : List (Action M)}
    (h : run (Logger.step cfg) (Logger.start captured) as = some st) :
    Invariant cfg st (observed cfg captured as) :=
  trace_invariant (Logger.emit cfg) (I := Invariant cfg) (invariant_start cfg captured)
    invariant_step h

end Step

end Demiplane.Scroll

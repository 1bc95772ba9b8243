import Mathlib.Data.Finset.Card
import Mathlib.Data.List.Nodup
import Demiplane.Multithread.ThreadPool

/-!
The workers of a `ThreadPool`: which of them are in the list, and how many there are. The
list never gets longer than `max_threads`. It never gets shorter than `min_threads` on idle,
but workers that have left their loop are in it until they have been cleaned up.
-/

namespace Demiplane.Multithread

open Transition

/-- The worker has not left its loop. -/
def WorkerPc.inLoop : WorkerPc → Bool
  | .leaving => false
  | .finished => false
  | _ => true

/-- The call of `enqueue` has found the list not full and may still create a worker. -/
def EnqueuePc.mayCreate : EnqueuePc → Bool
  | .freeSize => true
  | .freeActive _ => true
  | .create => true
  | _ => false

namespace ThreadPool

/-! ### The list of workers -/

/-- Workers are in the list until they have finished. -/
structure Roster (s : ThreadPool) : Prop where
  nodup : s.workers.Nodup
  lt_created : ∀ w ∈ s.workers, w < s.created
  valid_iff : ∀ w < s.created, (s.thread w).valid = false ↔ (s.thread w).pc = .finished
  gone : ∀ w < s.created, w ∉ s.workers → (s.thread w).pc = .finished

namespace Roster

variable {s s' : ThreadPool}

theorem congr (h : s.Roster) (hworkers : s'.workers = s.workers) (hthread : s'.thread = s.thread)
    (hcreated : s'.created = s.created) : s'.Roster :=
  ⟨hworkers ▸ h.nodup, by rw [hworkers, hcreated]; exact h.lt_created,
    by rw [hthread, hcreated]; exact h.valid_iff,
    by rw [hworkers, hthread, hcreated]; exact h.gone⟩

/-- A worker that has not finished goes on. -/
theorem update (h : s.Roster) {w : ℕ} (hpc : (s.thread w).pc ≠ .finished) {t : SafeThread}
    (ht : t.valid = false ↔ t.pc = .finished) :
    Roster { s with thread := Function.update s.thread w t } where
  nodup := h.nodup
  lt_created := h.lt_created
  valid_iff w' hw' := by
    by_cases heq : w' = w
    · subst heq
      simpa using ht
    · simpa [Function.update_of_ne heq] using h.valid_iff w' hw'
  gone w' hw' hnot := by
    have hfinished := h.gone w' hw' hnot
    have hne : w' ≠ w := by
      rintro rfl
      exact hpc hfinished
    simpa [Function.update_of_ne hne] using hfinished

theorem setPc (h : s.Roster) {w : ℕ} (hw : w < s.created) (hpc : (s.thread w).pc ≠ .finished)
    (pc : WorkerPc) (hpc' : pc ≠ .finished) : (s.setPc w pc).Roster := by
  refine h.update hpc (iff_of_false ?_ hpc')
  exact fun hvalid => hpc ((h.valid_iff w hw).mp hvalid)

/-- A worker that is not valid is removed. -/
theorem erase (h : s.Roster) {w : ℕ} (hvalid : (s.thread w).valid = false) :
    Roster { s with workers := s.workers.erase w } where
  nodup := h.nodup.erase w
  lt_created w' hw' := h.lt_created w' (List.mem_of_mem_erase hw')
  valid_iff := h.valid_iff
  gone w' hw' hnot := by
    by_cases heq : w' = w
    · subst heq
      exact (h.valid_iff w' hw').mp hvalid
    · exact h.gone w' hw' fun hmem => hnot ((List.mem_erase_of_ne heq).mpr hmem)

theorem createWorker (h : s.Roster) : s.createWorker.Roster where
  nodup := by
    refine List.nodup_append.mpr ⟨h.nodup, List.nodup_singleton _, ?_⟩
    intro w hw w' hw'
    obtain rfl := List.mem_singleton.mp hw'
    exact (h.lt_created w hw).ne
  lt_created w hw := by
    rcases List.mem_append.mp hw with hw | hw
    · exact (h.lt_created w hw).trans (Nat.lt_succ_self _)
    · obtain rfl := List.mem_singleton.mp hw
      exact Nat.lt_succ_self _
  valid_iff w hw := by
    by_cases heq : w = s.created
    · subst heq
      simp [ThreadPool.createWorker]
    · have hlt : w < s.created := by
        change w < s.created + 1 at hw
        omega
      simpa [ThreadPool.createWorker, Function.update_of_ne heq] using h.valid_iff w hlt
  gone w hw hnot := by
    have hne : w ≠ s.created := by
      rintro rfl
      exact hnot (by simp [ThreadPool.createWorker])
    have hlt : w < s.created := by
      change w < s.created + 1 at hw
      omega
    have hmem : w ∉ s.workers := fun hmem => hnot (List.mem_append_left _ hmem)
    simpa [ThreadPool.createWorker, Function.update_of_ne hne] using h.gone w hlt hmem

/-- The worker in front has finished and is destroyed. -/
theorem tail (h : s.Roster) {w : ℕ} {rest : List ℕ} (hworkers : s.workers = w :: rest)
    (hpc : (s.thread w).pc = .finished) : Roster { s with workers := rest } where
  nodup := by
    have hnodup := h.nodup
    rw [hworkers] at hnodup
    exact hnodup.of_cons
  lt_created w' hw' := h.lt_created w' (hworkers ▸ List.mem_cons_of_mem w hw')
  valid_iff := h.valid_iff
  gone w' hw' hnot := by
    by_cases heq : w' = w
    · subst heq
      exact hpc
    · refine h.gone w' hw' fun hmem => ?_
      rw [hworkers] at hmem
      exact hnot (List.mem_of_ne_of_mem heq hmem)

variable {a : Action}

theorem moves (h : s.Roster) (hmoves : s.Moves a s') : s'.Roster := by
  cases hmoves with
  | enqueueErased c c' w hpc hvalid => exact (h.erase hvalid).congr rfl rfl rfl
  | created hpc => exact h.createWorker.congr rfl rfl rfl
  | started w hw hpc => exact h.update (by simp [hpc]) (by simp)
  | popped w task hw hpc hmutex hmem htop =>
    exact (h.setPc hw (by simp [hpc]) (.popped task) (by simp)).congr rfl rfl rfl
  | leftStopped w hw hpc hmutex hstop htasks =>
    exact h.setPc hw (by simp [hpc]) .leaving (by simp)
  | leftIdle w hw hpc hmutex hstop htasks hsize =>
    exact h.setPc hw (by simp [hpc]) .leaving (by simp)
  | began w task hw hpc =>
    exact (h.setPc hw (by simp [hpc]) (.running task) (by simp)).congr rfl rfl rfl
  | executed w task hw hpc =>
    exact (h.setPc hw (by simp [hpc]) .ran (by simp)).congr rfl rfl rfl
  | finished w hw hpc =>
    exact (h.setPc hw (by simp [hpc]) .looping (by simp)).congr rfl rfl rfl
  | exited w hw hpc => exact h.update (by simp [hpc]) (by simp)
  | cleanerErased pc w hvalid => exact (h.erase hvalid).congr rfl rfl rfl
  | joined w rest hpc hworkers hfinished => exact h.tail hworkers hfinished
  | _ => exact h.congr rfl rfl rfl

theorem make (c : ThreadPoolConfig) : (ThreadPool.make c).Roster where
  nodup := List.nodup_range
  lt_created w hw := List.mem_range.mp hw
  valid_iff w hw := by simp [ThreadPool.make]
  gone w hw hnot := absurd (List.mem_range.mpr hw) hnot

end Roster

/-! ### How many there are -/

/-- The workers that have been created and have not left their loop. -/
def inLoop (s : ThreadPool) : Finset ℕ :=
  (Finset.range s.created).filter fun w => (s.thread w).pc.inLoop

def live (s : ThreadPool) : ℕ := s.inLoop.card

/-- The number of workers in the list that have left their loop. -/
def left (s : ThreadPool) : ℕ := s.workers.countP fun w => !(s.thread w).pc.inLoop

/-- Until `shutdown` begins. -/
def Bounded (s : ThreadPool) : Prop :=
  s.shutdown = .running → s.config.minThreads ≤ s.live ∧ s.live ≤ s.config.maxThreads

/-- A worker that leaves on idle leaves enough behind, not counting those that have left
before it. -/
def KeepsMinimum (s : ThreadPool) : Action → Prop
  | .worker _ .leaveIdle => s.config.minThreads + s.left < s.workers.length
  | _ => True

variable {s s' : ThreadPool}

theorem mem_inLoop {w : ℕ} :
    w ∈ s.inLoop ↔ w < s.created ∧ (s.thread w).pc.inLoop = true := by
  simp [inLoop]

/-- The workers in the loop are in the list. -/
theorem Roster.live_add_left (h : s.Roster) :
    s.live + s.left = s.workers.length := by
  have hset : s.inLoop = (s.workers.filter fun w => (s.thread w).pc.inLoop).toFinset := by
    ext w
    rw [mem_inLoop, List.mem_toFinset, List.mem_filter]
    constructor
    · rintro ⟨hw, hloop⟩
      refine ⟨?_, hloop⟩
      by_contra hnot
      rw [h.gone w hw hnot] at hloop
      cases hloop
    · rintro ⟨hmem, hloop⟩
      exact ⟨h.lt_created w hmem, hloop⟩
  have hlive : s.live = s.workers.countP fun w => (s.thread w).pc.inLoop := by
    rw [live, hset, List.toFinset_card_of_nodup (h.nodup.filter _), List.countP_eq_length_filter]
  rw [hlive, left, List.length_eq_countP_add_countP (fun w => (s.thread w).pc.inLoop)]
  simp

/-- The list has at most `max_threads` workers, and room for one that may be created. -/
structure Sized (s : ThreadPool) : Prop where
  le_max : s.workers.length ≤ s.config.maxThreads
  room : ∀ pc ∈ s.enqueue, pc.mayCreate = true → s.workers.length < s.config.maxThreads
  stop_iff : s.stop = false ↔ s.shutdown = .running

theorem Decides.room {pc pc' : EnqueuePc} (h : s.Decides pc pc')
    (hs : s.Sized) (hpc : s.enqueue = some pc) (hmay : pc'.mayCreate = true) :
    s.workers.length < s.config.maxThreads := by
  cases h with
  | cleaning c c' => cases hmay
  | cleaned => cases hmay
  | full hfull => cases hmay
  | notFull hfull => exact lt_of_le_of_ne hs.le_max hfull
  | sized => exact hs.room _ hpc rfl
  | noneFree size hfree => exact hs.room _ hpc rfl
  | someFree size hfree => cases hmay

theorem Sized.moves (h : s.Sized) (hmoves : s.Moves a s') :
    s'.Sized := by
  have hlength : ∀ w, (s.workers.erase w).length ≤ s.workers.length := fun w =>
    (List.erase_sublist ..).length_le
  cases hmoves with
  | pushed priority hmutex hstop =>
    refine ⟨h.le_max, fun pc hpc hmay => ?_, h.stop_iff⟩
    obtain rfl := Option.some.inj hpc
    cases hmay
  | decided pc pc' hpc hdecides =>
    refine ⟨h.le_max, fun pc'' hpc'' hmay => ?_, h.stop_iff⟩
    obtain rfl := Option.some.inj hpc''
    exact hdecides.room h hpc hmay
  | enqueueErased c c' w hpc hvalid =>
    refine ⟨(hlength w).trans h.le_max, fun pc'' hpc'' hmay => ?_, h.stop_iff⟩
    obtain rfl := Option.some.inj hpc''
    cases hmay
  | created hpc =>
    have hroom := h.room _ hpc rfl
    refine ⟨?_, fun pc'' hpc'' hmay => ?_, h.stop_iff⟩
    · simpa [createWorker, Nat.succ_le_iff] using hroom
    · obtain rfl := Option.some.inj hpc''
      cases hmay
  | left hpc => exact ⟨h.le_max, by simp, h.stop_iff⟩
  | cleanerErased pc w hvalid =>
    exact ⟨(hlength w).trans h.le_max,
      fun pc' hpc' hmay => (hlength w).trans_lt (h.room pc' hpc' hmay), h.stop_iff⟩
  | stopped hpc hmutex => exact ⟨h.le_max, h.room, by simp⟩
  | locked hpc =>
    refine ⟨h.le_max, h.room, ?_⟩
    simpa [hpc] using h.stop_iff
  | joined w rest hpc hworkers hfinished =>
    have hle : rest.length ≤ s.workers.length := by simp [hworkers]
    exact ⟨hle.trans h.le_max, fun pc hpc hmay => hle.trans_lt (h.room pc hpc hmay), h.stop_iff⟩
  | cleared hpc hworkers =>
    refine ⟨h.le_max, h.room, ?_⟩
    simpa [hpc] using h.stop_iff
  | returned hpc =>
    refine ⟨h.le_max, h.room, ?_⟩
    simpa [hpc] using h.stop_iff
  | _ => exact ⟨h.le_max, h.room, h.stop_iff⟩

theorem inLoop_update {w : ℕ} {t : SafeThread}
    (ht : t.pc.inLoop = (s.thread w).pc.inLoop) :
    inLoop { s with thread := Function.update s.thread w t } = s.inLoop := by
  ext w'
  rw [mem_inLoop, mem_inLoop]
  by_cases heq : w' = w
  · subst heq
    simp [ht]
  · simp [Function.update_of_ne heq]

theorem inLoop_leave (s : ThreadPool) (w : ℕ) :
    (s.setPc w .leaving).inLoop = s.inLoop.erase w := by
  ext w'
  rw [Finset.mem_erase, mem_inLoop, mem_inLoop]
  by_cases heq : w' = w
  · subst heq
    simp [setPc, WorkerPc.inLoop]
  · simp [setPc, heq]

theorem inLoop_createWorker (s : ThreadPool) :
    s.createWorker.inLoop = insert s.created s.inLoop := by
  ext w
  rw [Finset.mem_insert, mem_inLoop, mem_inLoop]
  by_cases heq : w = s.created
  · subst heq
    simp [createWorker, WorkerPc.inLoop]
  · simp only [createWorker, Function.update_of_ne heq, heq, false_or, and_congr_left_iff]
    intro _
    omega

/-- Workers leave the loop one by one, when they find the queue empty. -/
theorem Moves.inLoop (h : s.Moves a s') :
    ((∀ w, a ≠ .worker w .leaveIdle) ∧ s.inLoop ⊆ s'.inLoop) ∨
      s.tasks = [] ∧ s.enqueue = none ∧ ∃ w ∈ s.inLoop,
        (a = .worker w .leaveStopped ∧ s.stop = true ∨
          a = .worker w .leaveIdle ∧ s.stop = false) ∧ s'.inLoop = s.inLoop.erase w := by
  cases h with
  | created hpc =>
    refine .inl ⟨by simp, ?_⟩
    exact (Finset.subset_insert _ _).trans (inLoop_createWorker s).ge
  | started w hw hpc => exact .inl ⟨by simp, (inLoop_update (by rw [hpc]; rfl)).ge⟩
  | popped w task hw hpc hmutex hmem htop =>
    exact .inl ⟨by simp, (inLoop_update (by rw [hpc]; rfl)).ge⟩
  | leftStopped w hw hpc hmutex hstop htasks =>
    exact .inr ⟨htasks, hmutex, w, mem_inLoop.mpr ⟨hw, by rw [hpc]; rfl⟩, .inl ⟨rfl, hstop⟩,
      inLoop_leave s w⟩
  | leftIdle w hw hpc hmutex hstop htasks hsize =>
    exact .inr ⟨htasks, hmutex, w, mem_inLoop.mpr ⟨hw, by rw [hpc]; rfl⟩, .inr ⟨rfl, hstop⟩,
      inLoop_leave s w⟩
  | began w task hw hpc => exact .inl ⟨by simp, (inLoop_update (by rw [hpc]; rfl)).ge⟩
  | executed w task hw hpc => exact .inl ⟨by simp, (inLoop_update (by rw [hpc]; rfl)).ge⟩
  | finished w hw hpc => exact .inl ⟨by simp, (inLoop_update (by rw [hpc]; rfl)).ge⟩
  | exited w hw hpc => exact .inl ⟨by simp, (inLoop_update (by rw [hpc]; rfl)).ge⟩
  | _ => exact .inl ⟨by simp, Finset.Subset.refl _⟩

theorem Moves.config (h : s.Moves a s') :
    s'.config = s.config := by
  cases h <;> rfl

/-- What is proved of the list of workers and of the numbers of them. -/
structure Manned (s : ThreadPool) : Prop where
  roster : s.Roster
  sized : s.Sized

theorem Manned.step (h : s.Manned) (hstep : s.step a = some s') :
    s'.Manned :=
  ⟨h.roster.moves (moves_of_step hstep), h.sized.moves (moves_of_step hstep)⟩

theorem Manned.live_le (h : s.Manned) : s.live ≤ s.config.maxThreads := by
  have hsum := h.roster.live_add_left
  have hmax := h.sized.le_max
  omega

theorem Moves.running (h : s.Moves a s')
    (hrunning : s'.shutdown = .running) : s.shutdown = .running := by
  cases h with
  | stopped hpc hmutex => cases hrunning
  | locked hpc => cases hrunning
  | cleared hpc hworkers => cases hrunning
  | returned hpc => cases hrunning
  | _ => exact hrunning

theorem keepsMinimum_of_ne
    (h : ∀ w, a ≠ .worker w .leaveIdle) : s.KeepsMinimum a := by
  cases a with
  | worker w a =>
    cases a with
    | leaveIdle => exact absurd rfl (h w)
    | _ => trivial
  | _ => trivial

/-- The number of workers stays in bounds exactly if a worker that leaves on idle leaves
enough. -/
theorem Manned.bounded_step_iff (h : s.Manned)
    (hbounded : s.Bounded) (hstep : s.step a = some s') :
    s'.Bounded ↔ s.KeepsMinimum a := by
  have hmoves := moves_of_step hstep
  have hmax := (h.step hstep).live_le
  have hsum := h.roster.live_add_left
  -- only a worker that leaves its loop can take the pool below the minimum
  rcases hmoves.inLoop with ⟨hne, hsubset⟩ | ⟨-, -, w, hw, hleaves, hloop⟩
  · refine iff_of_true (fun hrunning => ⟨?_, hmax⟩) (keepsMinimum_of_ne hne)
    rw [hmoves.config]
    exact (hbounded (hmoves.running hrunning)).1.trans (Finset.card_le_card hsubset)
  · have hlive : s'.live + 1 = s.live := by
      rw [live, hloop, Finset.card_erase_add_one hw, live]
    rcases hleaves with ⟨rfl, hstop⟩ | ⟨rfl, hstop⟩
    · -- `shutdown` has begun
      refine iff_of_true (fun hrunning => ?_) trivial
      rw [h.sized.stop_iff.mpr (hmoves.running hrunning)] at hstop
      cases hstop
    · have hrunning : s.shutdown = .running := h.sized.stop_iff.mp hstop
      have hshutdown : s'.shutdown = s.shutdown := by
        cases hmoves
        rfl
      -- the list holds those in their loop and those that have left it
      change s'.Bounded ↔ s.config.minThreads + s.left < s.workers.length
      constructor
      · intro hafter
        have hmin := (hafter (hshutdown.trans hrunning)).1
        rw [hmoves.config] at hmin
        omega
      · intro henough _
        refine ⟨?_, hmax⟩
        rw [hmoves.config]
        omega

theorem Manned.make {c : ThreadPoolConfig} (hc : c.ok = true) : (make c).Manned where
  roster := Roster.make c
  sized := by
    have hle : c.minThreads ≤ c.maxThreads := by
      simp only [ThreadPoolConfig.ok, Bool.and_eq_true, decide_eq_true_eq] at hc
      exact hc.2
    refine ⟨?_, by simp [ThreadPool.make], by simp [ThreadPool.make]⟩
    simpa [ThreadPool.make] using hle

theorem live_make (c : ThreadPoolConfig) : (make c).live = c.minThreads := by
  simp [live, inLoop, make, WorkerPc.inLoop]

theorem construct_eq_ok {c : ThreadPoolConfig} (h : construct c = .ok s) :
    c.ok = true ∧ s = make c := by
  unfold construct at h
  split_ifs at h with hok
  exact ⟨hok, (Except.ok.inj h).symm⟩

/-- Until `shutdown` begins there are always at least `min_threads` workers in their loops
and at most `max_threads`, exactly if no worker leaves on idle while those in the list that
have not left before are `min_threads` or fewer. -/
theorem bounded_always_iff {c : ThreadPoolConfig} {s₀ : ThreadPool} (hc : construct c = .ok s₀)
    {actions : List Action} {s : ThreadPool} (h : run step s₀ actions = some s) :
    Always step Bounded s₀ actions ↔ Guarded step KeepsMinimum s₀ actions := by
  obtain ⟨hok, rfl⟩ := construct_eq_ok hc
  have hmanned := Manned.make hok
  refine always_iff_guarded hmanned (fun s a t hs => hs.step) (fun _ => ⟨?_, hmanned.live_le⟩)
    (fun s a t hs hbounded => hs.bounded_step_iff hbounded) h
  exact (live_make c).ge

instance (s : ThreadPool) (a : Action) : Decidable (s.KeepsMinimum a) :=
  match a with
  | .worker _ .leaveIdle =>
      inferInstanceAs (Decidable (s.config.minThreads + s.left < s.workers.length))
  | .worker _ .start | .worker _ (.pop _) | .worker _ .leaveStopped | .worker _ .begin
  | .worker _ .execute | .worker _ .finish | .worker _ .exit => isTrue trivial
  | .enqueue _ | .enqueueStep | .cleaner | .shutdown => isTrue trivial

/-- One worker at least, and two at most. -/
def oneOrTwo : ThreadPoolConfig := ⟨1, 2, false⟩

/-- A call of `enqueue`, with the number of its steps under the mutex. -/
def enqueued (steps : ℕ) : List Action := .enqueue 1 :: List.replicate steps .enqueueStep

/-- While the first worker runs a task, another one comes; a second worker is created and
runs it. -/
def secondCreated : List Action :=
  [Action.worker 0 .start] ++ enqueued 8 ++
    [Action.worker 0 (.pop ⟨0, 1⟩), .worker 0 .begin] ++ enqueued 9 ++
    [Action.worker 0 .execute, .worker 0 .finish, .worker 1 .start, .worker 1 (.pop ⟨1, 1⟩),
      .worker 1 .begin, .worker 1 .execute, .worker 1 .finish]

theorem bounded_always_secondCreated :
    (run step (make oneOrTwo) (secondCreated ++ [Action.worker 0 .leaveIdle])).isSome ∧
      Always step Bounded (make oneOrTwo) (secondCreated ++ [Action.worker 0 .leaveIdle]) :=
  ⟨rfl, (bounded_always_iff (c := oneOrTwo) rfl rfl).mpr (by decide)⟩

/-- Both workers leave on idle: the first one is still in the list when the second one looks
at its size. -/
def bothLeave : List Action :=
  secondCreated ++ [Action.worker 0 .leaveIdle, .worker 1 .leaveIdle]

theorem no_worker_left :
    (run step (make oneOrTwo) bothLeave).isSome ∧
      ¬ Always step Bounded (make oneOrTwo) bothLeave := by
  refine ⟨rfl, fun h => ?_⟩
  have hmin := (h _ List.prefix_rfl _ rfl rfl).1
  exact absurd hmin (by decide)

end ThreadPool

end Demiplane.Multithread

import Demiplane.Custody.Ledger
import Demiplane.Multithread.Workers

/-!
The tasks of a `ThreadPool`. A task is in the queue, with a worker, or it has been executed,
and it gets from one to the next. What is left in the queue when all workers have left their
loops is lost: a call of `enqueue` that creates no worker relies on one that is there.
-/

namespace Demiplane.Multithread

open Transition Custody

/-- The task that a worker has taken and not yet run. -/
def WorkerPc.task : WorkerPc → Option ℕ
  | .popped task => some task.number
  | .running task => some task.number
  | _ => none

/-- The call of `enqueue` has not decided against a new worker. -/
def EnqueuePc.undecided : EnqueuePc → Bool
  | .leave => false
  | _ => true

/-- Where a task can be. -/
inductive Place where
  | queue
  | worker (w : ℕ)
  | executed
  deriving DecidableEq, Repr

namespace ThreadPool

/-! ### Every task is in one place -/

def Sits (s : ThreadPool) (t : ℕ) : Place → Prop
  | .queue => t ∈ s.tasks.map EnqueuedTask.number
  | .worker w => w < s.created ∧ (s.thread w).pc.task = some t
  | .executed => t ∈ s.executed

structure Ledger (s : ThreadPool) : Prop where
  held : Held (· < s.accepted) s.Sits
  queue_nodup : (s.tasks.map EnqueuedTask.number).Nodup
  executed_nodup : s.executed.Nodup

variable {s s' : ThreadPool}

theorem sits_update {w : ℕ} {t : SafeThread}
    (ht : t.pc.task = (s.thread w).pc.task) (x : ℕ) (p : Place) :
    Sits { s with thread := Function.update s.thread w t } x p ↔ s.Sits x p := by
  cases p with
  | queue => exact Iff.rfl
  | executed => exact Iff.rfl
  | worker w' =>
    by_cases heq : w' = w
    · subst heq
      simp [Sits, ht]
    · simp [Sits, Function.update_of_ne heq]

theorem sits_createWorker (s : ThreadPool) (x : ℕ) (p : Place) :
    s.createWorker.Sits x p ↔ s.Sits x p := by
  cases p with
  | queue => exact Iff.rfl
  | executed => exact Iff.rfl
  | worker w =>
    by_cases heq : w = s.created
    · subst heq
      simp [Sits, createWorker, WorkerPc.task]
    · simp only [Sits, createWorker, Function.update_of_ne heq, and_congr_left_iff]
      intro _
      omega

theorem Ledger.congr (h : s.Ledger) (hsits : ∀ x p, s'.Sits x p ↔ s.Sits x p)
    (haccepted : s'.accepted = s.accepted) (htasks : s'.tasks = s.tasks)
    (hexecuted : s'.executed = s.executed) : s'.Ledger := by
  refine ⟨?_, htasks ▸ h.queue_nodup, hexecuted ▸ h.executed_nodup⟩
  have heq : s'.Sits = s.Sits := funext fun x => funext fun p => propext (hsits x p)
  rw [heq, haccepted]
  exact h.held

/-- A task comes into the queue. -/
theorem Ledger.push (h : s.Ledger) (priority : UInt32)
    (enqueue : Option EnqueuePc) :
    Ledger { s with
      tasks := ⟨s.accepted, priority⟩ :: s.tasks
      accepted := s.accepted + 1
      enqueue := enqueue } := by
  have hnew : ¬ s.accepted < s.accepted := lt_irrefl _
  refine ⟨?_, ?_, h.executed_nodup⟩
  · refine h.held.issue (q := .queue) hnew (fun y r => ?_) (fun y => Nat.lt_succ_iff_lt_or_eq)
    cases r with
    | queue => simp [Sits, or_comm]
    | worker w => simp [Sits]
    | executed => simp [Sits]
  · rw [List.map_cons, List.nodup_cons]
    exact ⟨h.held.not_found hnew .queue, h.queue_nodup⟩

theorem mem_map_erase {l : List EnqueuedTask} (h : (l.map EnqueuedTask.number).Nodup)
    {task : EnqueuedTask} (hmem : task ∈ l) (y : ℕ) :
    y ∈ (l.erase task).map EnqueuedTask.number ↔
      y ∈ l.map EnqueuedTask.number ∧ y ≠ task.number := by
  have hnodup : l.Nodup := h.of_map
  simp only [List.mem_map, hnodup.mem_erase_iff]
  constructor
  · rintro ⟨u, ⟨hne, hu⟩, rfl⟩
    exact ⟨⟨u, hu, rfl⟩, fun heq => hne (List.inj_on_of_nodup_map h hu hmem heq)⟩
  · rintro ⟨⟨u, hu, rfl⟩, hne⟩
    exact ⟨u, ⟨fun heq => hne (heq ▸ rfl), hu⟩, rfl⟩

/-- A worker that has none takes a task from the queue. -/
theorem Ledger.pop (h : s.Ledger) {w : ℕ} (hw : w < s.created)
    (hpc : (s.thread w).pc.task = none) {task : EnqueuedTask} (hmem : task ∈ s.tasks) :
    ({ s with tasks := s.tasks.erase task }.setPc w (.popped task)).Ledger := by
  have hqueue : s.Sits task.number .queue := List.mem_map_of_mem hmem
  refine ⟨?_, ?_, h.executed_nodup⟩
  · refine h.held.move (q := .worker w) hqueue (fun _ _ => Iff.rfl) fun y r => ?_
    cases r with
    | queue => simpa [Sits, setPc] using mem_map_erase h.queue_nodup hmem y
    | executed => simp [Sits, setPc]
    | worker w' =>
      by_cases heq : w' = w
      · subst heq
        have htask : (WorkerPc.popped task).task = some task.number := rfl
        simp [Sits, setPc, hw, hpc, htask, eq_comm]
      · simp [Sits, setPc, heq]
  · exact h.queue_nodup.sublist ((List.erase_sublist ..).map _)

/-- A worker has run its task. -/
theorem Ledger.execute (h : s.Ledger) {w : ℕ} (hw : w < s.created)
    {task : EnqueuedTask} (hpc : (s.thread w).pc = .running task) :
    ({ s with executed := s.executed ++ [task.number] }.setPc w .ran).Ledger := by
  have hworker : s.Sits task.number (.worker w) := ⟨hw, by rw [hpc]; rfl⟩
  refine ⟨?_, h.queue_nodup, ?_⟩
  · refine h.held.move (q := .executed) hworker (fun _ _ => Iff.rfl) fun y r => ?_
    cases r with
    | queue => simp [Sits, setPc]
    | executed => simp [Sits, setPc]
    | worker w' =>
      by_cases heq : w' = w
      · subst heq
        simp [Sits, setPc, hpc, WorkerPc.task, eq_comm]
      · simp [Sits, setPc, heq]
  · refine List.nodup_append.mpr ⟨h.executed_nodup, List.nodup_singleton _, ?_⟩
    intro y hy z hz heq
    obtain rfl := List.mem_singleton.mp hz
    have hexecuted : s.Sits task.number .executed := heq ▸ hy
    cases h.held.unique hworker hexecuted

theorem Ledger.moves {a : Action} (h : s.Ledger) (hmoves : s.Moves a s') :
    s'.Ledger := by
  cases hmoves with
  | pushed priority hmutex hstop => exact h.push priority _
  | created hpc => exact h.congr (sits_createWorker s) rfl rfl rfl
  | started w hw hpc => exact h.congr (sits_update (by rw [hpc]; rfl)) rfl rfl rfl
  | popped w task hw hpc hmutex hmem htop => exact h.pop hw (by rw [hpc]; rfl) hmem
  | leftStopped w hw hpc hmutex hstop htasks =>
    exact h.congr (sits_update (by rw [hpc]; rfl)) rfl rfl rfl
  | leftIdle w hw hpc hmutex hstop htasks hsize =>
    exact h.congr (sits_update (by rw [hpc]; rfl)) rfl rfl rfl
  | began w task hw hpc => exact h.congr (sits_update (by rw [hpc]; rfl)) rfl rfl rfl
  | executed w task hw hpc => exact h.execute hw hpc
  | finished w hw hpc => exact h.congr (sits_update (by rw [hpc]; rfl)) rfl rfl rfl
  | exited w hw hpc => exact h.congr (sits_update (by rw [hpc]; rfl)) rfl rfl rfl
  | _ => exact h.congr (fun x p => by cases p <;> rfl) rfl rfl rfl

/-! ### Tasks in the queue -/

/-- Where there are tasks in the queue, there is a worker in its loop, or a call of `enqueue`
that may create one. -/
def Covered (s : ThreadPool) : Prop :=
  s.tasks ≠ [] → s.inLoop.Nonempty ∨ ∃ pc ∈ s.enqueue, pc.undecided = true

/-- Where `enqueue` decides against a new worker, there is one that has not left its loop. -/
def LeavesWorker (s : ThreadPool) : Action → Prop
  | .enqueueStep => ∀ pc ∈ s.enqueue, s.Decides pc .leave → s.inLoop.Nonempty
  | _ => True

/-- When `shutdown` has returned, every task that was accepted has been executed once. -/
def ExecutedOnce (s : ThreadPool) : Prop :=
  s.shutdown = .returned → ∀ t < s.accepted, s.executed.count t = 1

/-- While `enqueue` holds the mutex, its task is in the queue. After `shutdown` has stopped
the pool no call of `enqueue` is under way, and after it has cleared the list there are no
workers in it. -/
structure Closing (s : ThreadPool) : Prop where
  busy : s.enqueue ≠ none → s.tasks ≠ []
  quiet : s.stop = true → s.enqueue = none
  cleared : s.shutdown = .cleared ∨ s.shutdown = .returned → s.workers = []

theorem Closing.moves {a : Action} (h : s.Closing) (hmanned : s.Manned)
    (hmoves : s.Moves a s') : s'.Closing := by
  cases hmoves with
  | pushed priority hmutex hstop => exact ⟨by simp, by simp [hstop], h.cleared⟩
  | decided pc pc' hpc hdecides =>
    exact ⟨fun _ => h.busy (by simp [hpc]), fun hstop => by simp [h.quiet hstop] at hpc, h.cleared⟩
  | enqueueErased c c' w hpc hvalid =>
    refine ⟨fun _ => h.busy (by simp [hpc]), fun hstop => by simp [h.quiet hstop] at hpc, ?_⟩
    intro hshutdown
    simp [h.cleared hshutdown]
  | created hpc =>
    refine ⟨fun _ => h.busy (by simp [hpc]), fun hstop => by simp [h.quiet hstop] at hpc, ?_⟩
    intro hshutdown
    have hstop : s.stop = false := by
      by_contra hstop
      simp [h.quiet (by simpa using hstop)] at hpc
    have hrunning := hmanned.sized.stop_iff.mp hstop
    rcases hshutdown with hshutdown | hshutdown <;> simp [createWorker, hrunning] at hshutdown
  | left hpc => exact ⟨by simp, fun _ => rfl, h.cleared⟩
  | popped w task hw hpc hmutex hmem htop => exact ⟨by simp [setPc, hmutex], h.quiet, h.cleared⟩
  | cleanerErased pc w hvalid =>
    refine ⟨h.busy, h.quiet, fun hshutdown => ?_⟩
    simp [h.cleared hshutdown]
  | stopped hpc hmutex => exact ⟨h.busy, fun _ => hmutex, by simp⟩
  | locked hpc => exact ⟨h.busy, h.quiet, by simp⟩
  | joined w rest hpc hworkers hfinished =>
    refine ⟨h.busy, h.quiet, fun hshutdown => ?_⟩
    simp [hpc] at hshutdown
  | cleared hpc hworkers => exact ⟨h.busy, h.quiet, fun _ => hworkers⟩
  | returned hpc => exact ⟨h.busy, h.quiet, fun _ => h.cleared (.inl hpc)⟩
  | _ => exact ⟨h.busy, h.quiet, h.cleared⟩

theorem Covered.mono (h : s.Covered) (hloop : s.inLoop ⊆ s'.inLoop)
    (htasks : s'.tasks = s.tasks) (henqueue : s'.enqueue = s.enqueue) : s'.Covered := by
  intro hne
  rw [htasks] at hne
  rw [henqueue]
  exact (h hne).imp (fun hloop' => hloop'.mono hloop) id

/-- The state decides which way `enqueue` goes. -/
theorem Decides.eq_leave {pc pc' : EnqueuePc} (h : s.Decides pc pc')
    (hleave : s.Decides pc .leave) : pc' = .leave := by
  cases hleave with
  | full hfull =>
    cases h with
    | full _ => rfl
    | notFull hnot => exact absurd hfull hnot
  | someFree size hfree =>
    cases h with
    | someFree _ _ => rfl
    | noneFree _ hnone => exact absurd hnone hfree

theorem Decides.covered_iff {pc pc' : EnqueuePc} (h : s.Decides pc pc')
    (hpc : s.enqueue = some pc) (htasks : s.tasks ≠ []) :
    Covered { s with enqueue := some pc' } ↔ s.LeavesWorker .enqueueStep := by
  have hleaves : s.LeavesWorker .enqueueStep ↔ (s.Decides pc .leave → s.inLoop.Nonempty) := by
    simp [LeavesWorker, hpc]
  rw [hleaves]
  by_cases hpc' : pc' = .leave
  · subst hpc'
    constructor
    · intro hcovered _
      rcases hcovered htasks with hloop | ⟨pc'', hpc'', hundecided⟩
      · exact hloop
      · obtain rfl := Option.some.inj hpc''
        cases hundecided
    · exact fun hloop _ => .inl (hloop h)
  · refine iff_of_true (fun _ => .inr ⟨pc', rfl, ?_⟩) fun hleave => absurd (h.eq_leave hleave) hpc'
    cases pc' with
    | leave => exact absurd rfl hpc'
    | _ => rfl

/-- A call of `enqueue` that is not at a decision leaves nothing uncovered. -/
theorem leavesWorker_of_not_decides {pc : EnqueuePc} (hpc : s.enqueue = some pc)
    (hnot : ¬ s.Decides pc .leave) : s.LeavesWorker .enqueueStep := by
  intro pc' hpc' hleave
  obtain rfl := Option.some.inj (hpc.symm.trans hpc')
  exact absurd hleave hnot

theorem Closing.covered_step_iff {a : Action} (h : s.Closing)
    (hcovered : s.Covered) (hmoves : s.Moves a s') : s'.Covered ↔ s.LeavesWorker a := by
  rcases hmoves.inLoop with ⟨-, hloop⟩ | ⟨htasks, -, w, -, hleaves, -⟩
  · cases hmoves with
    | pushed priority hmutex hstop => exact iff_of_true (fun _ => .inr ⟨_, rfl, rfl⟩) trivial
    | decided pc pc' hpc hdecides => exact hdecides.covered_iff hpc (h.busy (by simp [hpc]))
    | enqueueErased c c' w hpc hvalid =>
      refine iff_of_true (fun _ => .inr ⟨_, rfl, rfl⟩) (leavesWorker_of_not_decides hpc ?_)
      rintro ⟨⟩
    | created hpc =>
      refine iff_of_true (fun _ => .inl ⟨s.created, ?_⟩) (leavesWorker_of_not_decides hpc ?_)
      · change s.created ∈ s.createWorker.inLoop
        rw [inLoop_createWorker]
        exact Finset.mem_insert_self _ _
      · rintro ⟨⟩
    | left hpc =>
      refine iff_of_true (fun htasks => ?_) (leavesWorker_of_not_decides hpc ?_)
      · -- the call has decided, so that it is a worker that the queue is left to
        rcases hcovered htasks with hloop' | ⟨pc, hpc', hundecided⟩
        · exact .inl hloop'
        · obtain rfl := Option.some.inj (hpc.symm.trans hpc')
          cases hundecided
      · rintro ⟨⟩
    | popped w task hw hpc hmutex hmem htop =>
      refine iff_of_true (fun _ => .inl ⟨w, hloop ?_⟩) trivial
      exact mem_inLoop.mpr ⟨hw, by rw [hpc]; rfl⟩
    | _ => exact iff_of_true (hcovered.mono hloop rfl rfl) trivial
  · -- a worker that leaves has found the queue empty
    have hempty : s'.tasks = [] := by
      rcases hleaves with ⟨rfl, -⟩ | ⟨rfl, -⟩
      · cases hmoves
        exact htasks
      · cases hmoves
        exact htasks
    have htrivial : s.LeavesWorker a := by
      rcases hleaves with ⟨rfl, -⟩ | ⟨rfl, -⟩ <;> trivial
    exact iff_of_true (fun hne => absurd hempty hne) htrivial

/-! ### No task is lost -/

/-- What is proved of the tasks, next to the workers. -/
structure Kept (s : ThreadPool) : Prop where
  manned : s.Manned
  ledger : s.Ledger
  closing : s.Closing

theorem Kept.step {a : Action} (h : s.Kept) (hstep : s.step a = some s') :
    s'.Kept where
  manned := h.manned.step hstep
  ledger := h.ledger.moves (moves_of_step hstep)
  closing := h.closing.moves h.manned (moves_of_step hstep)

theorem Kept.make {c : ThreadPoolConfig} (hc : c.ok = true) : (make c).Kept where
  manned := Manned.make hc
  ledger := by
    refine ⟨⟨?_, fun hx => absurd hx (Nat.not_lt_zero _), ?_⟩, List.nodup_nil, List.nodup_nil⟩
    · intro x p hx
      cases p <;> simp [Sits, ThreadPool.make, WorkerPc.task] at hx
    · intro x p q hx
      cases p <;> simp [Sits, ThreadPool.make, WorkerPc.task] at hx
  closing := ⟨by simp [ThreadPool.make], by simp [ThreadPool.make], by simp [ThreadPool.make]⟩

/-- When `shutdown` has returned, all workers have finished. -/
theorem Kept.not_inLoop (h : s.Kept) (hreturned : s.shutdown = .returned)
    (w : ℕ) (hw : w < s.created) : (s.thread w).pc = .finished := by
  refine h.manned.roster.gone w hw ?_
  rw [h.closing.cleared (.inr hreturned)]
  exact List.not_mem_nil

theorem Kept.executedOnce (h : s.Kept) (hcovered : s.Covered) :
    s.ExecutedOnce := by
  intro hreturned t ht
  have hfinished := h.not_inLoop hreturned
  have hstop : s.stop = true := by
    by_contra hstop
    have hrunning := h.manned.sized.stop_iff.mp (by simpa using hstop)
    simp [hreturned] at hrunning
  -- all workers have been joined, and nobody enqueues any more
  have hqueue : s.tasks = [] := by
    by_contra hne
    rcases hcovered hne with ⟨w, hw⟩ | ⟨pc, hpc, -⟩
    · obtain ⟨hlt, hloop⟩ := mem_inLoop.mp hw
      rw [hfinished w hlt] at hloop
      cases hloop
    · rw [h.closing.quiet hstop] at hpc
      cases hpc
  obtain ⟨p, hp⟩ := h.ledger.held.found ht
  cases p with
  | queue => simp [Sits, hqueue] at hp
  | worker w =>
    obtain ⟨hw, htask⟩ := hp
    rw [hfinished w hw] at htask
    cases htask
  | executed => exact List.count_eq_one_of_mem h.ledger.executed_nodup hp

theorem always_executedOnce {s₀ s : ThreadPool} (hkept : s₀.Kept) (hcovered : s₀.Covered)
    {actions : List Action} (h : run step s₀ actions = some s)
    (hguard : Guarded step LeavesWorker s₀ actions) : Always step ExecutedOnce s₀ actions := by
  refine always_of_guarded (I := fun s => s.Kept ∧ s.Covered) ⟨hkept, hcovered⟩ ?_ ?_ h hguard
  · rintro s a t ⟨hs, hcov⟩ hg hstep
    exact ⟨hs.step hstep, (hs.closing.covered_step_iff hcov (moves_of_step hstep)).mpr hg⟩
  · rintro s ⟨hs, hcov⟩
    exact hs.executedOnce hcov

theorem covered_make (c : ThreadPoolConfig) : (make c).Covered :=
  fun hne => absurd rfl hne

/-- The queue is covered in every state exactly if every call of `enqueue` that creates no
worker leaves its task to one, and then every task that was accepted has been executed once
when `shutdown` returns. -/
theorem executedOnce_iff {c : ThreadPoolConfig} {s₀ : ThreadPool} (hc : construct c = .ok s₀)
    {actions : List Action} {s : ThreadPool} (h : run step s₀ actions = some s) :
    (Always step Covered s₀ actions ↔ Guarded step LeavesWorker s₀ actions) ∧
      (Guarded step LeavesWorker s₀ actions → Always step ExecutedOnce s₀ actions) := by
  obtain ⟨hok, rfl⟩ := construct_eq_ok hc
  have hkept := Kept.make hok
  have hiff : Always step Covered (make c) actions ↔
      Guarded step LeavesWorker (make c) actions :=
    always_iff_guarded hkept (fun s a t hs => hs.step) (covered_make c)
      (fun s a t hs hcov hstep => hs.closing.covered_step_iff hcov (moves_of_step hstep)) h
  exact ⟨hiff, always_executedOnce hkept (covered_make c) h⟩

theorem decides_leave_iff (s : ThreadPool) (pc : EnqueuePc) :
    s.Decides pc .leave ↔
      (pc = .isFull ∧ s.workers.length = s.config.maxThreads) ∨
        ∃ size, pc = .freeActive size ∧ freeThreads size s.active ≠ 0 := by
  constructor
  · intro h
    cases h with
    | full hfull => exact .inl ⟨rfl, hfull⟩
    | someFree size hfree => exact .inr ⟨size, rfl, hfree⟩
  · rintro (⟨rfl, hfull⟩ | ⟨size, rfl, hfree⟩)
    · exact .full hfull
    · exact .someFree size hfree

instance (s : ThreadPool) (pc : EnqueuePc) : Decidable (s.Decides pc .leave) :=
  match pc with
  | .isFull => decidable_of_iff (s.workers.length = s.config.maxThreads)
      (by simp [decides_leave_iff])
  | .freeActive size => decidable_of_iff (freeThreads size s.active ≠ 0)
      (by simp [decides_leave_iff])
  | .cleanup _ | .freeSize | .create | .leave => isFalse (by simp [decides_leave_iff])

instance (s : ThreadPool) (a : Action) : Decidable (s.LeavesWorker a) :=
  match a with
  | .enqueueStep =>
      inferInstanceAs (Decidable (∀ pc ∈ s.enqueue, s.Decides pc .leave → s.inLoop.Nonempty))
  | .enqueue _ | .worker _ _ | .cleaner | .shutdown => isTrue trivial

/-- `shutdown` stops a pool of two workers, both leave, and are joined. -/
def shutDown : List Action :=
  [Action.shutdown, .worker 0 .leaveStopped, .worker 1 .leaveStopped, .worker 1 .exit,
    .worker 0 .exit] ++ List.replicate 5 Action.shutdown

theorem executedOnce_secondCreated :
    (run step (make oneOrTwo) (secondCreated ++ shutDown)).isSome ∧
      Always step ExecutedOnce (make oneOrTwo) (secondCreated ++ shutDown) :=
  ⟨rfl, (executedOnce_iff (c := oneOrTwo) rfl rfl).2 (by decide)⟩

/-- Both workers have left on idle when a task comes; they are still valid and in the list,
which is full. -/
def comesTooLate : List Action :=
  bothLeave ++ enqueued 7 ++ [Action.worker 0 .exit, .worker 1 .exit] ++
    List.replicate 6 Action.shutdown

theorem task_lost :
    (run step (make oneOrTwo) comesTooLate).isSome ∧
      ¬ Always step ExecutedOnce (make oneOrTwo) comesTooLate := by
  refine ⟨rfl, fun h => ?_⟩
  have hcount := h _ List.prefix_rfl _ rfl rfl 2 (by decide)
  exact absurd hcount (by decide)

/-! ### Pools of a fixed size -/

/-- Nobody leaves on idle. -/
structure FullHouse (s : ThreadPool) : Prop where
  kept : s.Kept
  fixed : s.config.minThreads = s.config.maxThreads
  positive : 0 < s.config.minThreads
  enough : s.stop = false → s.config.minThreads ≤ s.live

theorem Moves.not_stopped {a : Action} (h : s.Moves a s')
    (hstop : s'.stop = false) : s.stop = false := by
  cases h with
  | stopped hpc hmutex => cases hstop
  | _ => exact hstop

theorem FullHouse.step {a : Action} (h : s.FullHouse)
    (hstep : s.step a = some s') : s'.FullHouse := by
  have hmoves := moves_of_step hstep
  refine ⟨h.kept.step hstep, hmoves.config ▸ h.fixed, hmoves.config ▸ h.positive, fun hstop => ?_⟩
  have hrunning := hmoves.not_stopped hstop
  rw [hmoves.config]
  rcases hmoves.inLoop with ⟨-, hloop⟩ | ⟨-, -, w, -, hleaves, -⟩
  · exact (h.enough hrunning).trans (Finset.card_le_card hloop)
  · rcases hleaves with ⟨-, hstopped⟩ | ⟨rfl, -⟩
    · rw [hrunning] at hstopped
      cases hstopped
    · -- the list is never longer than the minimum
      cases hmoves with
      | leftIdle w hw hpc hmutex hstop htasks hsize =>
        have hmax := h.kept.manned.sized.le_max
        have hfixed := h.fixed
        omega

theorem FullHouse.leavesWorker (h : s.FullHouse) (a : Action) :
    s.LeavesWorker a := by
  cases a with
  | enqueueStep =>
    intro pc hpc _
    have hstop : s.stop = false := by
      by_contra hstop
      rw [h.kept.closing.quiet (by simpa using hstop)] at hpc
      cases hpc
    exact Finset.card_pos.mp (h.positive.trans_le (h.enough hstop))
  | _ => trivial

/-- A pool with as many workers at least as at most loses no task. -/
theorem executedOnce_of_fixedSize {c : ThreadPoolConfig} {s₀ : ThreadPool}
    (hc : construct c = .ok s₀) (hfixed : c.minThreads = c.maxThreads) {actions : List Action}
    (h : run step s₀ actions = some s) :
    Always step ExecutedOnce s₀ actions := by
  obtain ⟨hok, rfl⟩ := construct_eq_ok hc
  have hpositive : 0 < c.minThreads := by
    simp only [ThreadPoolConfig.ok, Bool.and_eq_true, decide_eq_true_eq] at hok
    exact hok.1.1
  have hfull : (make c).FullHouse :=
    ⟨Kept.make hok, hfixed, hpositive, fun _ => (live_make c).ge⟩
  have hguard : Guarded step (fun _ _ => True) (make c) actions :=
    guarded_of_forall fun _ _ _ => trivial
  exact always_executedOnce (Kept.make hok) (covered_make c) h
    (hguard.mono hfull (fun s a t hs _ => hs.step) fun s a hs _ => hs.leavesWorker a)

end ThreadPool

end Demiplane.Multithread

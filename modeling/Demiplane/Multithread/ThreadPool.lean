import Mathlib.Logic.Function.Basic
import Demiplane.Transition.Run

/-!
`ThreadPool`: workers that take tasks from a queue, calls of `enqueue` that may create a
worker, a thread that cleans up behind workers that have left, and one `shutdown`. The task
mutex covers the queue and all of `enqueue`; the list of workers has a lock of its own, with
readers and writers. A step is one access to what the threads share, or a part of a section
under the task mutex that nobody else can observe.
-/

namespace Demiplane.Multithread

/-- The timeouts are left out: they can be over at any time. -/
structure ThreadPoolConfig where
  minThreads : ℕ
  maxThreads : ℕ
  enableCleanupThread : Bool
  deriving DecidableEq, Repr

def ThreadPoolConfig.ok (c : ThreadPoolConfig) : Bool :=
  decide (c.minThreads > 0) && decide (c.maxThreads > 0) && decide (c.minThreads ≤ c.maxThreads)

/-- Tasks are numbered in the order in which they come into the queue. -/
structure EnqueuedTask where
  number : ℕ
  priority : UInt32
  deriving DecidableEq, Repr

/-- Where the thread of a worker is. -/
inductive WorkerPc where
  | starting
  | looping
  | popped (task : EnqueuedTask)
  | running (task : EnqueuedTask)
  | ran
  | leaving
  | finished
  deriving DecidableEq, Repr

structure SafeThread where
  valid : Bool
  pc : WorkerPc
  deriving DecidableEq, Repr

/-- `cleanup_invalid_workers`: the count under the shared lock, with the workers that it has
not come to, and then the removal under the exclusive lock. -/
inductive Cleanup where
  | start
  | counting (rest : List ℕ) (needsCleanup : UInt8)
  | counted
  | erasing (rest : List ℕ)
  | done
  deriving DecidableEq, Repr

/-- Where the call of `enqueue` is that holds the task mutex. -/
inductive EnqueuePc where
  | cleanup (c : Cleanup)
  | isFull
  | freeSize
  | freeActive (size : ℕ)
  | create
  | leave
  deriving DecidableEq, Repr

inductive CleanerPc where
  | off
  | waiting
  | cleanup (c : Cleanup)
  | finished
  deriving DecidableEq, Repr

inductive ShutdownPc where
  | running
  | stopped
  | clearing
  | cleared
  | returned
  deriving DecidableEq, Repr

/-- Workers are numbered in the order of their creation; `workers` is the list of those that
have not been removed. `accepted` counts the tasks that have come into the queue, and
`executed` lists those that have been run. -/
structure ThreadPool where
  config : ThreadPoolConfig
  stop : Bool
  tasks : List EnqueuedTask
  workers : List ℕ
  thread : ℕ → SafeThread
  created : ℕ
  active : ℕ
  enqueue : Option EnqueuePc
  cleaner : CleanerPc
  shutdown : ShutdownPc
  accepted : ℕ
  executed : List ℕ

inductive WorkerAction where
  | start
  | pop (task : EnqueuedTask)
  | leaveStopped
  | leaveIdle
  | begin
  | execute
  | finish
  | exit
  deriving DecidableEq, Repr

inductive Action where
  | enqueue (priority : UInt32)
  | enqueueStep
  | worker (w : ℕ) (a : WorkerAction)
  | cleaner
  | shutdown
  deriving DecidableEq, Repr

namespace Cleanup

def isCounting : Cleanup → Bool
  | counting _ _ => true
  | _ => false

def isErasing : Cleanup → Bool
  | erasing _ => true
  | _ => false

end Cleanup

namespace ThreadPool

/-! ### The lock of the list of workers -/

def enqueueShares (s : ThreadPool) : Bool :=
  match s.enqueue with
  | some (.cleanup c) => c.isCounting
  | _ => false

def enqueueExcludes (s : ThreadPool) : Bool :=
  match s.enqueue with
  | some (.cleanup c) => c.isErasing
  | _ => false

def cleanerShares (s : ThreadPool) : Bool :=
  match s.cleaner with
  | .cleanup c => c.isCounting
  | _ => false

def cleanerExcludes (s : ThreadPool) : Bool :=
  match s.cleaner with
  | .cleanup c => c.isErasing
  | _ => false

def shutdownExcludes (s : ThreadPool) : Bool := s.shutdown == .clearing

/-! ### Steps -/

/-- `size() - active_threads()` in `std::size_t`. -/
def freeThreads (size active : ℕ) : UInt64 := UInt64.ofNat size - UInt64.ofNat active

def setPc (s : ThreadPool) (w : ℕ) (pc : WorkerPc) : ThreadPool :=
  { s with thread := Function.update s.thread w { s.thread w with pc := pc } }

/-- A step of `cleanup_invalid_workers`, and the list of workers behind it. `shared` and
`excluded` say whether others hold the lock in one of its modes. The thread of a worker that
is not valid has nothing left to do, so that nobody waits for it to be joined. -/
def cleanupStep (s : ThreadPool) (shared excluded : Bool) : Cleanup → Option (Cleanup × List ℕ)
  | .start => if excluded then none else some (.counting s.workers 0, s.workers)
  | .counting (w :: rest) n =>
      some (.counting rest (if (s.thread w).valid then n else n + 1), s.workers)
  | .counting [] n => some (if n = 0 then .done else .counted, s.workers)
  | .counted => if shared || excluded then none else some (.erasing s.workers, s.workers)
  | .erasing (w :: rest) =>
      some (.erasing rest, if (s.thread w).valid then s.workers else s.workers.erase w)
  | .erasing [] => some (.done, s.workers)
  | .done => none

/-- `create_worker`. -/
def createWorker (s : ThreadPool) : ThreadPool :=
  { s with
    workers := s.workers ++ [s.created]
    thread := Function.update s.thread s.created ⟨true, .starting⟩
    created := s.created + 1 }

/-- A step of the call of `enqueue` that holds the task mutex. -/
def enqueueStep (s : ThreadPool) : EnqueuePc → Option ThreadPool
  | .cleanup .done => some { s with enqueue := some .isFull }
  | .cleanup c =>
      (s.cleanupStep s.cleanerShares (s.cleanerExcludes || s.shutdownExcludes) c).map fun r =>
        { s with enqueue := some (.cleanup r.1), workers := r.2 }
  -- `size()` counts whoever is in the list, also a worker that has left its loop
  | .isFull =>
      if s.cleanerExcludes || s.shutdownExcludes then none
      else
        some { s with
          enqueue := some (if s.workers.length = s.config.maxThreads then .leave else .freeSize) }
  | .freeSize =>
      if s.cleanerExcludes || s.shutdownExcludes then none
      else some { s with enqueue := some (.freeActive s.workers.length) }
  | .freeActive size =>
      some { s with enqueue := some (if freeThreads size s.active = 0 then .create else .leave) }
  | .create =>
      if s.cleanerShares || s.cleanerExcludes || s.shutdownExcludes then none
      else some { s.createWorker with enqueue := some .leave }
  | .leave => some { s with enqueue := none }

/-- A step of a worker. The section under the task mutex is one step: what it reads besides
the queue is the size of the list of workers, and that only if the queue is empty and the
pool has not been stopped. -/
def workerStep (s : ThreadPool) (w : ℕ) : WorkerPc → WorkerAction → Option ThreadPool
  | .starting, .start =>
      some { s with thread := Function.update s.thread w ⟨true, .looping⟩ }
  | .looping, .pop task =>
      if s.enqueue = none ∧ task ∈ s.tasks ∧ ∀ u ∈ s.tasks, u.priority ≤ task.priority then
        some ({ s with tasks := s.tasks.erase task }.setPc w (.popped task))
      else none
  | .looping, .leaveStopped =>
      if s.enqueue = none ∧ s.stop = true ∧ s.tasks = [] then some (s.setPc w .leaving) else none
  -- nothing tells the list that a worker leaves: the next one that looks finds the same size
  | .looping, .leaveIdle =>
      if s.enqueue = none ∧ s.stop = false ∧ s.tasks = [] ∧
          (s.cleanerExcludes || s.shutdownExcludes) = false ∧
          s.config.minThreads < s.workers.length then
        some (s.setPc w .leaving)
      else none
  | .popped task, .begin => some ({ s with active := s.active + 1 }.setPc w (.running task))
  | .running task, .execute =>
      some ({ s with executed := s.executed ++ [task.number] }.setPc w .ran)
  | .ran, .finish => some ({ s with active := s.active - 1 }.setPc w .looping)
  -- only from here on can a cleanup remove the worker
  | .leaving, .exit =>
      some { s with thread := Function.update s.thread w ⟨false, .finished⟩ }
  | _, _ => none

/-- A step of the thread that cleans up. -/
def cleanerStep (s : ThreadPool) : CleanerPc → Option ThreadPool
  | .off => none
  | .waiting =>
      some { s with cleaner := if s.stop then .finished else .cleanup .start }
  | .cleanup .done => some { s with cleaner := .waiting }
  | .cleanup c =>
      (s.cleanupStep s.enqueueShares (s.enqueueExcludes || s.shutdownExcludes) c).map fun r =>
        { s with cleaner := .cleanup r.1, workers := r.2 }
  | .finished => none

/-- A step of `shutdown`. The list of workers is cleared from the front; a worker that is
destroyed is joined. -/
def shutdownStep (s : ThreadPool) : ShutdownPc → Option ThreadPool
  | .running =>
      if s.enqueue = none then some { s with stop := true, shutdown := .stopped } else none
  | .stopped =>
      if s.enqueueShares || s.enqueueExcludes || s.cleanerShares || s.cleanerExcludes then none
      else some { s with shutdown := .clearing }
  | .clearing =>
      match s.workers with
      | [] => some { s with shutdown := .cleared }
      | w :: rest =>
          if (s.thread w).pc = .finished then some { s with workers := rest } else none
  | .cleared =>
      if s.cleaner = .off ∨ s.cleaner = .finished then some { s with shutdown := .returned }
      else none
  | .returned => none

/-- A call of `enqueue` on a pool that has been stopped throws. -/
def step (s : ThreadPool) : Action → Option ThreadPool
  | .enqueue priority =>
      if s.enqueue = none then
        if s.stop then some s
        else
          some { s with
            tasks := ⟨s.accepted, priority⟩ :: s.tasks
            accepted := s.accepted + 1
            enqueue := some (.cleanup .start) }
      else none
  | .enqueueStep => s.enqueue.bind s.enqueueStep
  | .worker w a => if w < s.created then s.workerStep w (s.thread w).pc a else none
  | .cleaner => s.cleanerStep s.cleaner
  | .shutdown => s.shutdownStep s.shutdown

/-- The pool behind its constructor. -/
def make (c : ThreadPoolConfig) : ThreadPool where
  config := c
  stop := false
  tasks := []
  workers := List.range c.minThreads
  thread _ := ⟨true, .starting⟩
  created := c.minThreads
  active := 0
  enqueue := none
  cleaner := if c.enableCleanupThread then .waiting else .off
  shutdown := .running
  accepted := 0
  executed := []

def construct (c : ThreadPoolConfig) : Except String ThreadPool :=
  if c.ok then .ok (make c) else .error "Invalid config"

/-! ### What a step does -/

/-- What becomes of the workers in a step of `cleanup_invalid_workers`. -/
theorem cleanupStep_cases {s : ThreadPool} {shared excluded : Bool} {c : Cleanup}
    {r : Cleanup × List ℕ} (h : s.cleanupStep shared excluded c = some r) :
    r.2 = s.workers ∨
      ∃ w rest, c = .erasing (w :: rest) ∧ (s.thread w).valid = false ∧
        r.2 = s.workers.erase w := by
  cases c with
  | start =>
    simp only [cleanupStep] at h
    split_ifs at h
    obtain rfl := Option.some.inj h
    exact .inl rfl
  | counting rest n =>
    cases rest with
    | nil =>
      obtain rfl := Option.some.inj h
      exact .inl rfl
    | cons w rest =>
      obtain rfl := Option.some.inj h
      exact .inl rfl
  | counted =>
    simp only [cleanupStep] at h
    split_ifs at h
    obtain rfl := Option.some.inj h
    exact .inl rfl
  | erasing rest =>
    cases rest with
    | nil =>
      obtain rfl := Option.some.inj h
      exact .inl rfl
    | cons w rest =>
      obtain rfl := Option.some.inj h
      by_cases hvalid : (s.thread w).valid = true
      · exact .inl (if_pos hvalid)
      · exact .inr ⟨w, rest, rfl, by simpa using hvalid, if_neg hvalid⟩
  | done => cases h

/-- The steps of `enqueue` that change nothing but where the call is. -/
inductive Decides (s : ThreadPool) : EnqueuePc → EnqueuePc → Prop
  | cleaning (c c' : Cleanup) : Decides s (.cleanup c) (.cleanup c')
  | cleaned : Decides s (.cleanup .done) .isFull
  | full : s.workers.length = s.config.maxThreads → Decides s .isFull .leave
  | notFull : s.workers.length ≠ s.config.maxThreads → Decides s .isFull .freeSize
  | sized : Decides s .freeSize (.freeActive s.workers.length)
  | noneFree (size : ℕ) : freeThreads size s.active = 0 → Decides s (.freeActive size) .create
  | someFree (size : ℕ) : freeThreads size s.active ≠ 0 → Decides s (.freeActive size) .leave

/-- What a step can do. -/
inductive Moves (s : ThreadPool) : Action → ThreadPool → Prop
  | refused (priority : UInt32) : s.enqueue = none → s.stop = true →
      Moves s (.enqueue priority) s
  | pushed (priority : UInt32) : s.enqueue = none → s.stop = false →
      Moves s (.enqueue priority)
        { s with
          tasks := ⟨s.accepted, priority⟩ :: s.tasks
          accepted := s.accepted + 1
          enqueue := some (.cleanup .start) }
  | decided (pc pc' : EnqueuePc) : s.enqueue = some pc → s.Decides pc pc' →
      Moves s .enqueueStep { s with enqueue := some pc' }
  | enqueueErased (c c' : Cleanup) (w : ℕ) : s.enqueue = some (.cleanup c) →
      (s.thread w).valid = false →
      Moves s .enqueueStep
        { s with enqueue := some (.cleanup c'), workers := s.workers.erase w }
  | created : s.enqueue = some .create →
      Moves s .enqueueStep { s.createWorker with enqueue := some .leave }
  | left : s.enqueue = some .leave → Moves s .enqueueStep { s with enqueue := none }
  | started (w : ℕ) : w < s.created → (s.thread w).pc = .starting →
      Moves s (.worker w .start)
        { s with thread := Function.update s.thread w ⟨true, .looping⟩ }
  | popped (w : ℕ) (task : EnqueuedTask) : w < s.created → (s.thread w).pc = .looping →
      s.enqueue = none → task ∈ s.tasks → (∀ u ∈ s.tasks, u.priority ≤ task.priority) →
      Moves s (.worker w (.pop task))
        ({ s with tasks := s.tasks.erase task }.setPc w (.popped task))
  | leftStopped (w : ℕ) : w < s.created → (s.thread w).pc = .looping → s.enqueue = none →
      s.stop = true → s.tasks = [] → Moves s (.worker w .leaveStopped) (s.setPc w .leaving)
  | leftIdle (w : ℕ) : w < s.created → (s.thread w).pc = .looping → s.enqueue = none →
      s.stop = false → s.tasks = [] → s.config.minThreads < s.workers.length →
      Moves s (.worker w .leaveIdle) (s.setPc w .leaving)
  | began (w : ℕ) (task : EnqueuedTask) : w < s.created → (s.thread w).pc = .popped task →
      Moves s (.worker w .begin) ({ s with active := s.active + 1 }.setPc w (.running task))
  | executed (w : ℕ) (task : EnqueuedTask) : w < s.created → (s.thread w).pc = .running task →
      Moves s (.worker w .execute)
        ({ s with executed := s.executed ++ [task.number] }.setPc w .ran)
  | finished (w : ℕ) : w < s.created → (s.thread w).pc = .ran →
      Moves s (.worker w .finish) ({ s with active := s.active - 1 }.setPc w .looping)
  | exited (w : ℕ) : w < s.created → (s.thread w).pc = .leaving →
      Moves s (.worker w .exit)
        { s with thread := Function.update s.thread w ⟨false, .finished⟩ }
  | cleanerMoved (pc : CleanerPc) : Moves s .cleaner { s with cleaner := pc }
  | cleanerErased (pc : CleanerPc) (w : ℕ) : (s.thread w).valid = false →
      Moves s .cleaner { s with cleaner := pc, workers := s.workers.erase w }
  | stopped : s.shutdown = .running → s.enqueue = none →
      Moves s .shutdown { s with stop := true, shutdown := .stopped }
  | locked : s.shutdown = .stopped → Moves s .shutdown { s with shutdown := .clearing }
  | joined (w : ℕ) (rest : List ℕ) : s.shutdown = .clearing → s.workers = w :: rest →
      (s.thread w).pc = .finished → Moves s .shutdown { s with workers := rest }
  | cleared : s.shutdown = .clearing → s.workers = [] →
      Moves s .shutdown { s with shutdown := .cleared }
  | returned : s.shutdown = .cleared → Moves s .shutdown { s with shutdown := .returned }

theorem enqueueStep_cleanup {s : ThreadPool} {c : Cleanup} (hc : c ≠ .done) :
    s.enqueueStep (.cleanup c) =
      (s.cleanupStep s.cleanerShares (s.cleanerExcludes || s.shutdownExcludes) c).map fun r =>
        { s with enqueue := some (.cleanup r.1), workers := r.2 } := by
  cases c with
  | done => exact absurd rfl hc
  | _ => rfl

theorem moves_of_enqueueStep {s s' : ThreadPool} {pc : EnqueuePc} (hpc : s.enqueue = some pc)
    (h : s.enqueueStep pc = some s') : s.Moves .enqueueStep s' := by
  cases pc with
  | cleanup c =>
    by_cases hc : c = .done
    · subst hc
      obtain rfl := Option.some.inj h
      exact .decided _ _ hpc .cleaned
    · rw [enqueueStep_cleanup hc] at h
      obtain ⟨r, hr, rfl⟩ := Option.map_eq_some_iff.mp h
      rcases cleanupStep_cases hr with hsame | ⟨w, rest, -, hvalid, herase⟩
      · rw [hsame]
        exact .decided _ _ hpc (.cleaning c r.1)
      · rw [herase]
        exact .enqueueErased c r.1 w hpc hvalid
  | isFull =>
    simp only [enqueueStep] at h
    split_ifs at h with hlock hfull
    · obtain rfl := Option.some.inj h
      exact .decided _ _ hpc (.full hfull)
    · obtain rfl := Option.some.inj h
      exact .decided _ _ hpc (.notFull hfull)
  | freeSize =>
    simp only [enqueueStep] at h
    split_ifs at h
    obtain rfl := Option.some.inj h
    exact .decided _ _ hpc .sized
  | freeActive size =>
    simp only [enqueueStep] at h
    split_ifs at h with hfree
    · obtain rfl := Option.some.inj h
      exact .decided _ _ hpc (.noneFree size hfree)
    · obtain rfl := Option.some.inj h
      exact .decided _ _ hpc (.someFree size hfree)
  | create =>
    simp only [enqueueStep] at h
    split_ifs at h
    obtain rfl := Option.some.inj h
    exact .created hpc
  | leave =>
    obtain rfl := Option.some.inj h
    exact .left hpc

theorem moves_of_workerStep {s s' : ThreadPool} {w : ℕ} {a : WorkerAction} (hw : w < s.created)
    (h : s.workerStep w (s.thread w).pc a = some s') : s.Moves (.worker w a) s' := by
  generalize hpc : (s.thread w).pc = pc at h
  cases a with
  | start =>
    cases pc with
    | starting =>
      obtain rfl := Option.some.inj h
      exact .started w hw hpc
    | _ => cases h
  | pop task =>
    cases pc with
    | looping =>
      simp only [workerStep] at h
      split_ifs at h with hcond
      obtain rfl := Option.some.inj h
      exact .popped w task hw hpc hcond.1 hcond.2.1 hcond.2.2
    | _ => cases h
  | leaveStopped =>
    cases pc with
    | looping =>
      simp only [workerStep] at h
      split_ifs at h with hcond
      obtain rfl := Option.some.inj h
      exact .leftStopped w hw hpc hcond.1 hcond.2.1 hcond.2.2
    | _ => cases h
  | leaveIdle =>
    cases pc with
    | looping =>
      simp only [workerStep] at h
      split_ifs at h with hcond
      obtain rfl := Option.some.inj h
      obtain ⟨hmutex, hstop, htasks, -, hsize⟩ := hcond
      exact .leftIdle w hw hpc hmutex hstop htasks hsize
    | _ => cases h
  | begin =>
    cases pc with
    | popped task =>
      obtain rfl := Option.some.inj h
      exact .began w task hw hpc
    | _ => cases h
  | execute =>
    cases pc with
    | running task =>
      obtain rfl := Option.some.inj h
      exact .executed w task hw hpc
    | _ => cases h
  | finish =>
    cases pc with
    | ran =>
      obtain rfl := Option.some.inj h
      exact .finished w hw hpc
    | _ => cases h
  | exit =>
    cases pc with
    | leaving =>
      obtain rfl := Option.some.inj h
      exact .exited w hw hpc
    | _ => cases h

theorem cleanerStep_cleanup {s : ThreadPool} {c : Cleanup} (hc : c ≠ .done) :
    s.cleanerStep (.cleanup c) =
      (s.cleanupStep s.enqueueShares (s.enqueueExcludes || s.shutdownExcludes) c).map fun r =>
        { s with cleaner := .cleanup r.1, workers := r.2 } := by
  cases c with
  | done => exact absurd rfl hc
  | _ => rfl

theorem moves_of_cleanerStep {s s' : ThreadPool} {pc : CleanerPc}
    (h : s.cleanerStep pc = some s') : s.Moves .cleaner s' := by
  cases pc with
  | off => cases h
  | waiting =>
    obtain rfl := Option.some.inj h
    exact .cleanerMoved _
  | cleanup c =>
    by_cases hc : c = .done
    · subst hc
      obtain rfl := Option.some.inj h
      exact .cleanerMoved _
    · rw [cleanerStep_cleanup hc] at h
      obtain ⟨r, hr, rfl⟩ := Option.map_eq_some_iff.mp h
      rcases cleanupStep_cases hr with hsame | ⟨w, rest, -, hvalid, herase⟩
      · rw [hsame]
        exact .cleanerMoved _
      · rw [herase]
        exact .cleanerErased _ w hvalid
  | finished => cases h

theorem moves_of_shutdownStep {s s' : ThreadPool} {pc : ShutdownPc} (hpc : s.shutdown = pc)
    (h : s.shutdownStep pc = some s') : s.Moves .shutdown s' := by
  cases pc with
  | running =>
    simp only [shutdownStep] at h
    split_ifs at h with hmutex
    obtain rfl := Option.some.inj h
    exact .stopped hpc hmutex
  | stopped =>
    simp only [shutdownStep] at h
    split_ifs at h
    obtain rfl := Option.some.inj h
    exact .locked hpc
  | clearing =>
    cases hworkers : s.workers with
    | nil =>
      simp only [shutdownStep, hworkers] at h
      obtain rfl := Option.some.inj h
      have hcleared := Moves.cleared hpc hworkers
      rwa [hworkers] at hcleared
    | cons w rest =>
      simp only [shutdownStep, hworkers] at h
      split_ifs at h with hfinished
      obtain rfl := Option.some.inj h
      exact .joined w rest hpc hworkers hfinished
  | cleared =>
    simp only [shutdownStep] at h
    split_ifs at h
    obtain rfl := Option.some.inj h
    exact .returned hpc
  | returned => cases h

theorem moves_of_step {s s' : ThreadPool} {a : Action} (h : s.step a = some s') :
    s.Moves a s' := by
  cases a with
  | enqueue priority =>
    simp only [step] at h
    split_ifs at h with hmutex hstop
    · obtain rfl := Option.some.inj h
      exact .refused priority hmutex hstop
    · obtain rfl := Option.some.inj h
      exact .pushed priority hmutex (by simpa using hstop)
  | enqueueStep =>
    obtain ⟨pc, hpc, hstep⟩ := Option.bind_eq_some_iff.mp h
    exact moves_of_enqueueStep hpc hstep
  | worker w a =>
    simp only [step] at h
    split_ifs at h with hw
    exact moves_of_workerStep hw h
  | cleaner => exact moves_of_cleanerStep h
  | shutdown => exact moves_of_shutdownStep rfl h

end ThreadPool

end Demiplane.Multithread

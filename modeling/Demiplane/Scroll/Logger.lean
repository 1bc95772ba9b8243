import Demiplane.Disruptor.Sequencer
import Demiplane.Gears.InlineString

/-!
`Logger`: threads that call `log()` and `shutdown()`, the consumer thread, and
one strand per sink. The threads claim and publish through the sequencer, one
atomic operation at a time. The consumer moves published events out of the
ring into a batch, stops in the middle of a batch when it meets the shutdown
marker, and posts the batch to every strand. `shutdown()` sends the marker,
joins the consumer and then waits for a flush task it posts to every strand.

`wait_for` is modelled by what all wait strategies have in common: it returns
only when the cursor has reached the sequence.
-/

namespace Demiplane.Scroll

open Disruptor

/-! ### Events -/

inductive LogLevel where
  | trace
  | debug
  | info
  | warning
  | error
  | fatal
  deriving DecidableEq

/-- `InlineString<Capacity>`, up to its `size_`. -/
structure InlineString (capacity : ℕ) where
  bytes : List UInt8
  size_le : bytes.length ≤ capacity
  deriving DecidableEq

/-- `assign` at run time: silently truncates to the capacity. -/
def InlineString.assign {capacity : ℕ} (sv : List UInt8) : InlineString capacity where
  bytes := sv.take capacity
  size_le := by simp

/-- It is what can be viewed of the buffer, whatever an earlier event has left there. -/
theorem InlineString.bytes_assign {capacity : ℕ} (s : Gears.InlineString capacity)
    (sv : List UInt8) : (.assign sv : InlineString capacity).bytes = (s.assign sv).view :=
  (s.view_assign sv).symm

/-- `PrefixNameStorage`. -/
abbrev PrefixNameStorage := InlineString 31

/-- `LogEvent`. The captured location, time point, thread and process are only
ever copied; they are one value of type `M`. -/
structure LogEvent (M : Type*) where
  level : LogLevel
  prefixName : PrefixNameStorage
  message : List UInt8
  captured : M
  shutdownSignal : Bool

/-- `LogEvent()`, with the default-constructed metadata given. -/
def LogEvent.blank {M : Type*} (captured : M) : LogEvent M where
  level := .debug
  prefixName := .assign []
  message := []
  captured := captured
  shutdownSignal := false

/-- What a caller of `log()` passes, the message already formatted. -/
structure LogCall (M : Type*) where
  level : LogLevel
  prefixName : List UInt8
  message : List UInt8
  captured : M

variable {M : Type*}

/-- What `log()` does to its slot: `swap`, `assign` and `apply_meta`. -/
def LogCall.fill (call : LogCall M) (event : LogEvent M) : LogEvent M :=
  { event with
    message := call.message
    prefixName := .assign call.prefixName
    level := call.level
    captured := call.captured
    shutdownSignal := false }

/-- The event a call of `log()` stands for. -/
def LogCall.event (call : LogCall M) : LogEvent M where
  level := call.level
  prefixName := .assign call.prefixName
  message := call.message
  captured := call.captured
  shutdownSignal := false

@[simp] theorem LogCall.fill_eq (call : LogCall M) (event : LogEvent M) :
    call.fill event = call.event := rfl

/-- What `shutdown()` does to its slot. -/
def setShutdownSignal (event : LogEvent M) : LogEvent M :=
  { event with shutdownSignal := true }

/-! ### Threads -/

/-- A thread inside `log()` or `shutdown()`. While it sends through the
sequencer it keeps the sequence it has claimed. -/
inductive Thread (M : Type*) where
  | idle
  | log (call : LogCall M) (seq : ℤ) (q : Producer)
  | load
  | marker (seq : ℤ) (q : Producer)
  | join
  | flush (next remaining : ℕ)
  | poolJoin
  | store

/-- The consumer thread. It keeps the batch it collects; `last_consumed` is
always `seq - 1`. -/
inductive Consumer (M : Type*) where
  | loop (nextSeq : ℤ)
  | start (nextSeq : ℤ)
  | scan (nextSeq availableSequence seq : ℤ)
  | wait (nextSeq : ℤ)
  | read (seq available : ℤ) (batch : List (LogEvent M))
  | move (seq available : ℤ) (batch : List (LogEvent M))
  | mark (seq available : ℤ) (batch : List (LogEvent M))
  | stop (seq : ℤ) (batch : List (LogEvent M))
  | store (seq : ℤ) (batch : List (LogEvent M))
  | gate (lastConsumed : ℤ) (batch : List (LogEvent M))
  | post (nextSeq : ℤ) (sink : ℕ) (batch : List (LogEvent M))
  | exited

/-- A task posted to a strand: a batch for the sink, or the flush that
`shutdown()` in thread `p` waits for. -/
inductive Task (M : Type*) where
  | processBatch (batch : List (LogEvent M))
  | flush (p : ℕ)

/-- A strand runs its tasks one at a time in the order they were posted. -/
structure Strand (M : Type*) where
  active : Option (Task M)
  queue : List (Task M)

/-- The tasks that have not finished yet, in order. -/
def Strand.tasks (s : Strand M) : List (Task M) := s.active.toList ++ s.queue

def Strand.post (s : Strand M) (t : Task M) : Strand M :=
  { s with queue := s.queue ++ [t] }

/-- The parts of a logger that never change: its ring, the number of sinks
added, and whether the executor is an owned pool. -/
structure Config where
  buffer : BufferSize
  sinks : ℕ
  ownedPool : Bool

structure Logger (M : Type*) where
  memory : Memory (LogEvent M)
  threads : ℕ → Thread M
  consumer : Consumer M
  running : Bool
  strands : ℕ → Strand M
  poolJoined : Bool

/-- The logger after its constructor and the calls of `add_sink`. -/
def Logger.start (captured : M) : Logger M where
  memory := Memory.init (LogEvent.blank captured)
  threads _ := .idle
  consumer := .loop 0
  running := true
  strands _ := ⟨none, []⟩
  poolJoined := false

/-! ### Steps -/

/-- A step of a thread inside the sequencer. -/
inductive Move where
  | loadCursor
  | loadGating
  | compareAndSet (spurious : Bool)
  | write
  | publish
  | signal

/-- The operation on the sequencer, when the thread has claimed `seq` and
writes `v` there. -/
def Move.action (seq : ℤ) (v : LogEvent M) : Move → ProducerAction (LogEvent M)
  | .loadCursor => .loadCursor
  | .loadGating => .loadGating
  | .compareAndSet spurious => .compareAndSet spurious
  | .write => .write seq v
  | .publish => .publish
  | .signal => .signal

inductive Action (M : Type*) where
  | callLog (p : ℕ) (call : LogCall M)
  | callShutdown (p : ℕ)
  | send (p : ℕ) (a : Move)
  | proceed (p : ℕ)
  | consumer (residue : List UInt8)
  | strandStart (k : ℕ)
  | strandFinish (k : ℕ)

/-- The local `seq` of a thread is set by the claim. -/
def claimedSeq (seq : ℤ) : Producer → ℤ
  | .write lo _ _ => lo
  | _ => seq

/-- One flush less to wait for. -/
def Thread.countDown : Thread M → Thread M
  | .flush next remaining => .flush next (remaining - 1)
  | t => t

namespace Logger

def setThread (st : Logger M) (p : ℕ) (t : Thread M) : Logger M :=
  { st with threads := Function.update st.threads p t }

def postTo (st : Logger M) (k : ℕ) (t : Task M) : Logger M :=
  { st with strands := Function.update st.strands k ((st.strands k).post t) }

/-- A thread goes on in the sequencer. `log()` returns after its `publish`,
`shutdown()` goes on to join the consumer. -/
def send (cfg : Config) (st : Logger M) (p : ℕ) (a : Move) : Option (Logger M) :=
  match st.threads p with
  | .log call seq q =>
      let v := call.fill (st.memory.get cfg.buffer seq)
      (q.step cfg.buffer st.memory (a.action seq v)).map fun r =>
        setThread { st with memory := r.1 } p
          (match r.2 with
            | .idle => .idle
            | q' => .log call (claimedSeq seq q') q')
  | .marker seq q =>
      let v := setShutdownSignal (st.memory.get cfg.buffer seq)
      (q.step cfg.buffer st.memory (a.action seq v)).map fun r =>
        setThread { st with memory := r.1 } p
          (match r.2 with
            | .idle => .join
            | q' => .marker (claimedSeq seq q') q')
  | _ => none

/-- No task is left on any strand. -/
def Drained (cfg : Config) (st : Logger M) : Prop :=
  ∀ k < cfg.sinks, (st.strands k).tasks.length = 0

instance (cfg : Config) (st : Logger M) : Decidable (st.Drained cfg) :=
  inferInstanceAs (Decidable (∀ k < cfg.sinks, _ = 0))

/-- `shutdown()` outside the sequencer. -/
def proceed (cfg : Config) (st : Logger M) (p : ℕ) : Option (Logger M) :=
  match st.threads p with
  | .load =>
      if st.running then some (st.setThread p (.marker 0 (.loadCursor .next)))
      else some (st.setThread p .idle)
  | .join =>
      match st.consumer with
      | .exited => some (st.setThread p (.flush 0 cfg.sinks))
      | _ => none
  | .flush next remaining =>
      if next < cfg.sinks then
        some ((st.postTo next (.flush p)).setThread p (.flush (next + 1) remaining))
      else if remaining = 0 then some (st.setThread p .poolJoin)
      else none
  | .poolJoin =>
      if cfg.ownedPool then
        if st.Drained cfg then some (setThread { st with poolJoined := true } p .store) else none
      else some (st.setThread p .store)
  | .store => some (setThread { st with running := false } p .idle)
  | _ => none

/-- One operation of `consumer_loop`. `residue` is what the move leaves in the
message of the slot, which the language does not say. -/
def consume (cfg : Config) (st : Logger M) (residue : List UInt8) : Option (Logger M) :=
  let B := cfg.buffer
  let m := st.memory
  match st.consumer with
  | .loop nextSeq =>
      if st.running then some { st with consumer := .start nextSeq }
      else some { st with consumer := .exited }
  | .start nextSeq => some { st with consumer := .scan nextSeq m.cursor nextSeq }
  | .scan nextSeq availableSequence seq =>
      if seq ≤ availableSequence ∧ m.isAvailable B seq = true then
        some { st with consumer := .scan nextSeq availableSequence (seq + 1) }
      else
        let available := if seq ≤ availableSequence then seq - 1 else availableSequence
        if available < nextSeq then some { st with consumer := .wait nextSeq }
        else some { st with consumer := .read nextSeq available [] }
  | .wait nextSeq =>
      if m.cursor ≥ nextSeq then some { st with consumer := .loop nextSeq } else none
  | .read seq available batch =>
      if seq ≤ available then
        if (m.get B seq).shutdownSignal then some { st with consumer := .stop seq batch }
        else some { st with consumer := .move seq available batch }
      else some { st with consumer := .gate (seq - 1) batch }
  | .move seq available batch =>
      let event := m.get B seq
      some { st with
        memory := m.put B seq { event with message := residue }
        consumer := .mark seq available (batch ++ [event]) }
  | .mark seq available batch =>
      some { st with
        memory := m.markConsumed B seq
        consumer := .read (seq + 1) available batch }
  | .stop seq batch =>
      some { st with memory := m.markConsumed B seq, consumer := .store seq batch }
  | .store seq batch => some { st with running := false, consumer := .gate seq batch }
  | .gate lastConsumed batch =>
      some { st with
        memory := m.updateGatingSequence lastConsumed
        consumer :=
          if batch.isEmpty then .loop (lastConsumed + 1) else .post (lastConsumed + 1) 0 batch }
  | .post nextSeq sink batch =>
      if sink < cfg.sinks then
        some { st.postTo sink (.processBatch batch) with
          consumer := .post nextSeq (sink + 1) batch }
      else some { st with consumer := .loop nextSeq }
  | .exited => none

/-- The strand of sink `k` begins with its next task. After `join()` the owned
pool runs nothing more. -/
def strandStart (cfg : Config) (st : Logger M) (k : ℕ) : Option (Logger M) :=
  if k < cfg.sinks ∧ st.poolJoined = false then
    match st.strands k with
    | ⟨none, t :: queue⟩ =>
        some { st with strands := Function.update st.strands k ⟨some t, queue⟩ }
    | _ => none
  else none

/-- The strand of sink `k` ends its task. A flush counts down `remaining` of
the `shutdown()` that posted it. -/
def strandFinish (cfg : Config) (st : Logger M) (k : ℕ) : Option (Logger M) :=
  if k < cfg.sinks ∧ st.poolJoined = false then
    match st.strands k with
    | ⟨some (.processBatch _), queue⟩ =>
        some { st with strands := Function.update st.strands k ⟨none, queue⟩ }
    | ⟨some (.flush p), queue⟩ =>
        some (setThread { st with strands := Function.update st.strands k ⟨none, queue⟩ } p
          (st.threads p).countDown)
    | _ => none
  else none

def step (cfg : Config) (st : Logger M) : Action M → Option (Logger M)
  | .callLog p call =>
      match st.threads p with
      | .idle => some (st.setThread p (.log call 0 (.loadCursor .next)))
      | _ => none
  | .callShutdown p =>
      match st.threads p with
      | .idle => some (st.setThread p .load)
      | _ => none
  | .send p a => st.send cfg p a
  | .proceed p => st.proceed cfg p
  | .consumer residue => st.consume cfg residue
  | .strandStart k => st.strandStart cfg k
  | .strandFinish k => st.strandFinish cfg k

end Logger

/-! ### Occurrences -/

/-- What can be observed of a run: the events of the ring, who claimed which
sequence for what, the calls that returned, and the batches a sink has
processed. -/
inductive Occurrence (M : Type*) where
  | ring (e : RingProtocol.Event ℕ (LogEvent M))
  | logClaim (p : ℕ) (call : LogCall M) (s : ℤ)
  | logReturn (p : ℕ) (call : LogCall M) (s : ℤ)
  | shutdownCall (p : ℕ)
  | shutdownClaim (p : ℕ) (s : ℤ)
  | shutdownReturn (p : ℕ)
  | processed (k : ℕ) (batch : List (LogEvent M))

/-- The events of the ring, each claim followed by what it is for. -/
def sent (claim : ℤ → Occurrence M) :
    List (RingProtocol.Event ℕ (LogEvent M)) → List (Occurrence M)
  | [] => []
  | .claim p lo hi :: es => .ring (.claim p lo hi) :: claim lo :: sent claim es
  | e :: es => .ring e :: sent claim es

/-- `log()` returns when it has signalled the consumer. -/
def returned (p : ℕ) (call : LogCall M) (seq : ℤ) : Producer → List (Occurrence M)
  | .signal => [.logReturn p call seq]
  | _ => []

/-- The operation of thread `p` on the sequencer that `a` is. -/
def Logger.action (cfg : Config) (st : Logger M) (p : ℕ) (a : Move) :
    ProducerAction (LogEvent M) :=
  match st.threads p with
  | .log call seq _ => a.action seq (call.fill (st.memory.get cfg.buffer seq))
  | .marker seq _ => a.action seq (setShutdownSignal (st.memory.get cfg.buffer seq))
  | _ => .signal

def Logger.emit (cfg : Config) (st : Logger M) : Action M → List (Occurrence M)
  | .callLog _ _ => []
  | .callShutdown p => [.shutdownCall p]
  | .send p a =>
      match st.threads p with
      | .log call seq q =>
          sent (.logClaim p call) (q.emit p st.memory (st.action cfg p a)) ++
            returned p call seq q
      | .marker _ q => sent (.shutdownClaim p) (q.emit p st.memory (st.action cfg p a))
      | _ => []
  | .proceed p =>
      match st.threads p with
      | .load => if st.running then [] else [.shutdownReturn p]
      | .store => [.shutdownReturn p]
      | _ => []
  | .consumer _ =>
      match st.consumer with
      | .move seq _ _ => [.ring (.process seq (st.memory.get cfg.buffer seq))]
      | .mark seq _ _ => [.ring (.mark seq)]
      | .stop seq _ =>
          [.ring (.process seq (st.memory.get cfg.buffer seq)), .ring (.mark seq)]
      | .gate lastConsumed _ => [.ring (.release lastConsumed)]
      | _ => []
  | .strandStart _ => []
  | .strandFinish k =>
      match (st.strands k).active with
      | some (.processBatch batch) => [.processed k batch]
      | _ => []

end Demiplane.Scroll

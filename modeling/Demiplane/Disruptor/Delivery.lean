import Demiplane.Disruptor.Refinement

/-!
A disruptor at work: any number of producers and the single consumer of the
documented loop, which reads the cursor, asks `get_highest_published` how far
it may go, reads and marks every slot up to there, and then moves the gating
sequence in one store.

The consumer clears a flag before it gives the slot back, and gives back a
whole batch of slots at once. Its part of the invariant says where it stands
in between: how far it has processed, marked and released.
-/

namespace Demiplane.Disruptor

open RingProtocol Transition

variable {α : Type*}

/-! ### The consumer -/

/-- Where the consumer stands in its loop. -/
inductive Consumer where
  | start (nextSeq : ℤ)
  | scan (nextSeq availableSequence seq : ℤ)
  | read (seq available : ℤ)
  | mark (seq available : ℤ)
  | gate (available : ℤ)
  deriving DecidableEq

/-- One atomic operation of the loop. The steps at `scan` are those of
`get_highest_published`, whose loop tests its bound before each load. -/
def Consumer.step (B : BufferSize) (m : Memory α) : Consumer → Memory α × Consumer
  | .start nextSeq => (m, .scan nextSeq m.cursor nextSeq)
  | .scan nextSeq availableSequence seq =>
      if seq ≤ availableSequence then
        if m.isAvailable B seq then (m, .scan nextSeq availableSequence (seq + 1))
        else (m, .read nextSeq (seq - 1))
      else (m, .read nextSeq availableSequence)
  | .read seq available =>
      if seq ≤ available then (m, .mark seq available) else (m, .gate available)
  | .mark seq available => (m.markConsumed B seq, .read (seq + 1) available)
  | .gate available => (m.updateGatingSequence available, .start (available + 1))

def Consumer.emit {P : Type*} (B : BufferSize) (m : Memory α) : Consumer → List (Event P α)
  | .read seq available => if seq ≤ available then [.process seq (m.get B seq)] else []
  | .mark seq _ => [.mark seq]
  | .gate available => [.release available]
  | _ => []

/-- What the consumer relies on at each of its program points. -/
def Consumer.Knows {P : Type*} (d : State P α) : Consumer → Prop
  | .start nextSeq =>
      d.processed = nextSeq - 1 ∧ d.marked = nextSeq - 1 ∧ d.released ≤ nextSeq - 1
  | .scan nextSeq availableSequence seq =>
      d.processed = nextSeq - 1 ∧ d.marked = nextSeq - 1 ∧ d.released ≤ nextSeq - 1 ∧
        availableSequence ≤ d.cursor ∧ nextSeq ≤ seq ∧ seq ≤ availableSequence + 1 ∧
        ∀ s, nextSeq ≤ s → s < seq → d.published s = true
  | .read seq available =>
      d.processed = seq - 1 ∧ d.marked = seq - 1 ∧ d.released ≤ seq - 1 ∧
        seq ≤ available + 1 ∧ ∀ s, seq ≤ s → s ≤ available → d.published s = true
  | .mark seq available =>
      d.processed = seq ∧ d.marked = seq - 1 ∧ d.released ≤ seq - 1 ∧
        seq ≤ available ∧ ∀ s, seq < s → s ≤ available → d.published s = true
  | .gate available =>
      d.processed = available ∧ d.marked = available ∧ d.released ≤ available

/-- Producers cannot take the consumer's knowledge away. -/
theorem Consumer.Knows.produces {P : Type*} {p : P} {d d' : State P α} {c : Consumer}
    (h : c.Knows d) (hd : Produces p d d') : c.Knows d' := by
  have hcursor := hd.cursor
  have hproc := hd.processed
  have hmark := hd.marked
  have hrel := hd.released
  cases c with
  | start nextSeq =>
      simp only [Knows] at h ⊢
      omega
  | scan nextSeq availableSequence seq =>
      obtain ⟨h1, h2, h3, h4, h5, h6, hpub⟩ := h
      exact ⟨by omega, by omega, by omega, by omega, h5, h6,
        fun s hlo hhi => hd.published s (hpub s hlo hhi)⟩
  | read seq available =>
      obtain ⟨h1, h2, h3, h4, hpub⟩ := h
      exact ⟨by omega, by omega, by omega, h4, fun s hlo hhi => hd.published s (hpub s hlo hhi)⟩
  | mark seq available =>
      obtain ⟨h1, h2, h3, h4, hpub⟩ := h
      exact ⟨by omega, by omega, by omega, h4, fun s hlo hhi => hd.published s (hpub s hlo hhi)⟩
  | gate available =>
      simp only [Knows] at h ⊢
      omega

/-- One step of the consumer is a run of the protocol. -/
theorem Consumer.step_refines {P : Type*} {B : BufferSize} {m : Memory α} {d : State P α}
    {c : Consumer} (hm : Tracks B m d) (hc : c.Knows d) :
    ∃ d', run (RingProtocol.step B.size) d (c.emit B m) = some d' ∧
      Tracks B (c.step B m).1 d' ∧ (c.step B m).2.Knows d' ∧ ∀ p, Frame p d d' := by
  have hprocessed := hm.wf.processed_le
  cases c with
  | start nextSeq =>
      obtain ⟨h1, h2, h3⟩ := hc
      refine ⟨d, rfl, hm, ⟨h1, h2, h3, hm.cursor.le, le_rfl, ?_, ?_⟩, fun p => .refl p d⟩
      · have := hm.cursor
        omega
      · intro s hlo hhi
        omega
  | scan nextSeq availableSequence seq =>
      obtain ⟨h1, h2, h3, h4, h5, h6, hpub⟩ := hc
      refine ⟨d, rfl, ?_⟩
      simp only [Consumer.step]
      split
      · rename_i hle
        split
        · -- the flag of a sequence between `marked` and the cursor means what it says
          rename_i havail
          have hseq := (hm.isAvailable_iff (by omega) (by omega)).mp havail
          refine ⟨hm, ⟨h1, h2, h3, h4, by omega, by omega, ?_⟩, fun p => .refl p d⟩
          intro s hlo hhi
          rcases eq_or_ne s seq with rfl | hne
          · exact hseq
          · exact hpub s hlo (by omega)
        · exact ⟨hm, ⟨h1, h2, h3, by omega, fun s hlo hhi => hpub s hlo (by omega)⟩,
            fun p => .refl p d⟩
      · exact ⟨hm, ⟨h1, h2, h3, by omega, fun s hlo hhi => hpub s hlo (by omega)⟩,
          fun p => .refl p d⟩
  | read seq available =>
      obtain ⟨h1, h2, h3, h4, hpub⟩ := hc
      by_cases hle : seq ≤ available
      · have hen := hm.enabled_process (s := seq) (by omega) (hpub seq le_rfl hle)
        refine ⟨_, by rw [Consumer.emit, if_pos hle]; exact run_singleton hen, ?_⟩
        simp only [Consumer.step, if_pos hle]
        exact ⟨hm.process hen, ⟨rfl, h2, h3, hle, fun s hlo hhi => hpub s (by omega) hhi⟩,
          fun p => frame_process p d _ _⟩
      · refine ⟨d, by rw [Consumer.emit, if_neg hle]; rfl, ?_⟩
        simp only [Consumer.step, if_neg hle]
        exact ⟨hm, ⟨by omega, by omega, by omega⟩, fun p => .refl p d⟩
  | mark seq available =>
      obtain ⟨h1, h2, h3, h4, hpub⟩ := hc
      have hen : Enabled B.size d (.mark seq) := ⟨by omega, by omega⟩
      refine ⟨_, run_singleton hen, hm.mark hen, ?_, fun p => frame_mark p d _⟩
      exact ⟨by simp only [apply]; omega, by simp only [apply]; omega,
        by simp only [apply]; omega, by omega, fun s hlo hhi => hpub s (by omega) hhi⟩
  | gate available =>
      obtain ⟨h1, h2, h3⟩ := hc
      have hen : Enabled B.size d (.release available) := ⟨h3, by omega⟩
      refine ⟨_, run_singleton hen, hm.release hen, ?_, fun p => frame_release p hen⟩
      exact ⟨by simp only [apply]; omega, by simp only [apply]; omega,
        by simp only [apply]; omega⟩

/-! ### The system -/

/-- The shared memory, the producers by their thread number, and a consumer of
kind `γ`. -/
structure System (α γ : Type*) where
  memory : Memory α
  producers : ℕ → Producer
  consumer : γ

/-- A step of one thread; `κ` are the choices of the consumer. -/
inductive Action (α κ : Type*) where
  | producer (p : ℕ) (a : ProducerAction α)
  | consumer (k : κ)

/-- A step of producer `p`; `signal` is what `wait_strategy_->signal()` does
to the consumer. -/
def System.stepProducer {γ : Type*} (B : BufferSize) (signal : γ → γ) (st : System α γ)
    (p : ℕ) (a : ProducerAction α) : Option (System α γ) :=
  ((st.producers p).step B st.memory a).map fun r =>
    { memory := r.1
      producers := Function.update st.producers p r.2
      consumer := match a with
        | .signal => signal st.consumer
        | _ => st.consumer }

/-- The disruptor with the documented consumer, which never waits: `signal()`
has nobody to wake. -/
def step (B : BufferSize) (st : System α Consumer) :
    Action α Unit → Option (System α Consumer)
  | .producer p a => st.stepProducer B id p a
  | .consumer () =>
      let r := st.consumer.step B st.memory
      some { st with memory := r.1, consumer := r.2 }

def emit (B : BufferSize) (st : System α Consumer) : Action α Unit → List (Event ℕ α)
  | .producer p a => (st.producers p).emit p st.memory a
  | .consumer () => st.consumer.emit B st.memory

/-- All threads at their beginning, the memory as constructed. -/
def start (blank : α) : System α Consumer where
  memory := Memory.init blank
  producers _ := .idle
  consumer := .start 0

/-- The system represents the protocol state `d`. -/
structure Represents (B : BufferSize) (st : System α Consumer) (d : State ℕ α) : Prop where
  memory : Tracks B st.memory d
  producers : ∀ p, Owns B p d (st.producers p)
  consumer : st.consumer.Knows d

theorem represents_start (B : BufferSize) (blank : α) :
    Represents B (start blank) RingProtocol.init where
  memory := tracks_init blank
  producers _ := trivial
  consumer := by simp [start, Consumer.Knows, RingProtocol.init]

theorem represents_step {B : BufferSize} (st : System α Consumer) (a : Action α Unit)
    (st' : System α Consumer) (d : State ℕ α) (h : Represents B st d)
    (ha : step B st a = some st') :
    ∃ d', run (RingProtocol.step B.size) d (emit B st a) = some d' ∧ Represents B st' d' := by
  cases a with
  | producer p a =>
      simp only [step, System.stepProducer, Option.map_eq_some_iff] at ha
      obtain ⟨⟨m', q'⟩, hq, rfl⟩ := ha
      obtain ⟨d', hrun, hm', hown, hprod⟩ :=
        Producer.step_refines h.memory (h.producers p) hq
      refine ⟨d', hrun, hm', fun r => ?_, ?_⟩
      · by_cases hr : r = p
        · subst hr
          simpa using hown
        · simpa [hr] using (h.producers r).frame (hprod.others r hr)
      · have hk := h.consumer.produces hprod
        cases a <;> exact hk
  | consumer k =>
      cases ha
      obtain ⟨d', hrun, hm', hk, hframe⟩ := Consumer.step_refines h.memory h.consumer
      exact ⟨d', hrun, hm', fun p => (h.producers p).frame (hframe p), hk⟩

/-- In every interleaving of any number of producers with the consumer, the
claims partition `0 .. cursor`, the consumer goes through them in order and
reads what the claimers wrote, and no slot is written before its previous
sequence is processed. -/
theorem disruptor_delivery (B : BufferSize) (blank : α) (as : List (Action α Unit))
    (st : System α Consumer) (h : run (step B) (start blank) as = some st) :
    Delivery B.size st.memory.cursor (trace (step B) (emit B) (start blank) as) := by
  obtain ⟨d, hrun, hrep⟩ := simulation (represents_start B blank) represents_step h
  rw [hrep.memory.cursor]
  exact delivery_of_run (by omega) hrun

/-- One value through a buffer of two slots: a call of `next`, the write and
`publish`, then a whole round of the consumer. -/
def oneRound : List (Action ℕ Unit) :=
  [Action.producer 0 (.call .next), .producer 0 .loadCursor, .producer 0 .loadGating,
    .producer 0 (.compareAndSet false), .producer 0 (.write 0 7), .producer 0 .publish,
    .producer 0 .signal] ++ List.replicate 7 (Action.consumer ())

theorem disruptor_delivery_oneRound :
    trace (step twoSlots) (emit twoSlots) (start 0) oneRound =
        [.claim 0 0 0, .write 0 0 7, .publish 0 0, .process 0 7, .mark 0, .release 0] ∧
      ∃ st, run (step twoSlots) (start 0) oneRound = some st ∧
        Delivery twoSlots.size st.memory.cursor
          (trace (step twoSlots) (emit twoSlots) (start 0) oneRound) :=
  ⟨rfl, _, rfl, disruptor_delivery twoSlots 0 oneRound _ rfl⟩

end Demiplane.Disruptor

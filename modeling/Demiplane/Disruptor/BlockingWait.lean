import Demiplane.Disruptor.Delivery

/-!
`BlockingWaitStrategy`. The consumer loop is the one that calls `wait_for`
when nothing is published; `publish` ends with `signal()`, which is
`cv_.notify_one()` without the mutex. `cv_.wait` releases the mutex and joins
the wait set in one step, and a notification reaches the consumer only if it is
in the wait set at that moment.

The predicate of the wait reads the cursor, and producers move the cursor and
signal without taking the mutex. So there is a window between the test of the
predicate and the wait set in which a signal goes nowhere.
-/

namespace Demiplane.Disruptor.BlockingWait

open Transition

variable {α : Type*}

/-- Where the consumer stands: in its loop, or in `wait_for(s)`. From `test`
to `wait` it holds `mutex_`, which nobody else ever takes. -/
inductive Waiter where
  | loop (c : Consumer)
  | quickCheck (s : ℤ)
  | lock (s : ℤ)
  | test (s : ℤ)
  | wait (s : ℤ)
  | waiting (s : ℤ)
  | woken (s : ℤ)
  deriving DecidableEq

/-- The next operation of the consumer, or a spurious wake-up. -/
inductive Choice where
  | go
  | spurious
  deriving DecidableEq

/-- One operation of the consumer loop: the documented loop, except that a
scan that finds nothing leads to `wait_for(next_seq)`. -/
def loopStep (B : BufferSize) (m : Memory α) (c : Consumer) : Memory α × Waiter :=
  match c, c.step B m with
  | .scan nextSeq _ _, (m', .read seq available) =>
      if available < nextSeq then (m', .quickCheck nextSeq) else (m', .loop (.read seq available))
  | _, (m', c') => (m', .loop c')

def Waiter.step (B : BufferSize) (m : Memory α) : Waiter → Choice → Option (Memory α × Waiter)
  | .loop c, .go => some (loopStep B m c)
  | .quickCheck s, .go =>
      if m.cursor ≥ s then some (m, .loop (.start s)) else some (m, .lock s)
  | .lock s, .go => some (m, .test s)
  | .test s, .go =>
      if m.cursor < s then some (m, .wait s) else some (m, .loop (.start s))
  | .wait s, .go => some (m, .waiting s)
  | .waiting s, .spurious => some (m, .woken s)
  | .woken s, .go => some (m, .test s)
  | _, _ => none

/-- `cv_.notify_one()`, as the consumer sees it. -/
def Waiter.signal : Waiter → Waiter
  | .waiting s => .woken s
  | w => w

def step (B : BufferSize) (st : System α Waiter) :
    Action α Choice → Option (System α Waiter)
  | .producer p a => st.stepProducer B Waiter.signal p a
  | .consumer k =>
      (st.consumer.step B st.memory k).map fun r => { st with memory := r.1, consumer := r.2 }

def start (blank : α) : System α Waiter where
  memory := Memory.init blank
  producers _ := .idle
  consumer := .loop (.start 0)

/-- The consumer sleeps on a sequence that is claimed, and nobody is left to
signal. -/
def Stranded (st : System α Waiter) : Prop :=
  ∃ s, st.consumer = .waiting s ∧ s ≤ st.memory.cursor ∧ ∀ p, (st.producers p).Settled

/-- The signal is lost on the consumer: it has found the predicate false, it
has not joined the wait set yet, and `p` is the last one to signal. -/
def LastSignalInWindow (st : System α Waiter) (p : ℕ) : Prop :=
  ∃ s, st.consumer = .wait s ∧ s ≤ st.memory.cursor ∧
    ∀ q, q ≠ p → (st.producers q).Settled

/-- No signal is lost. -/
def SignalArrives (st : System α Waiter) : Action α Choice → Prop
  | .producer p .signal => ¬ LastSignalInWindow st p
  | _ => True

/-- A consumer that sleeps, or is about to, on a claimed sequence has somebody
who will signal. -/
def Attended (st : System α Waiter) : Prop :=
  ∀ s, st.consumer = .wait s ∨ st.consumer = .waiting s → s ≤ st.memory.cursor →
    ∃ p, ¬ (st.producers p).Settled

theorem Attended.not_stranded {st : System α Waiter} (h : Attended st) : ¬ Stranded st := by
  rintro ⟨s, hs, hcursor, hall⟩
  obtain ⟨p, hp⟩ := h s (.inr hs) hcursor
  exact hp (hall p)

/-- A producer's step other than `signal()` leaves the cursor alone or puts the
producer in debt, and does not settle a debt. -/
theorem Producer.step_unsettled {B : BufferSize} {m m' : Memory α} {q q' : Producer}
    {a : ProducerAction α} (h : q.step B m a = some (m', q')) (ha : a ≠ .signal) :
    (m'.cursor = m.cursor ∧ (¬ q.Settled → ¬ q'.Settled)) ∨ ¬ q'.Settled := by
  cases q with
  | idle =>
      cases a with
      | call c =>
          simp only [Producer.step] at h
          split at h
          · cases h
            exact .inl ⟨rfl, fun hs => absurd trivial hs⟩
          · cases h
      | _ => cases h
  | loadCursor c =>
      cases a with
      | loadCursor =>
          cases h
          exact .inl ⟨rfl, fun hs => absurd trivial hs⟩
      | _ => cases h
  | loadGating c current =>
      cases a with
      | loadGating =>
          simp only [Producer.step] at h
          split at h <;> cases h <;> exact .inl ⟨rfl, fun hs => absurd trivial hs⟩
      | _ => cases h
  | spin c current =>
      cases a with
      | loadGating =>
          simp only [Producer.step] at h
          split at h <;> cases h <;> exact .inl ⟨rfl, fun hs => absurd trivial hs⟩
      | _ => cases h
  | compareAndSet c current =>
      cases a with
      | compareAndSet spurious =>
          simp only [Producer.step] at h
          split at h
          · cases h
            exact .inr id
          · cases h
            exact .inl ⟨rfl, fun hs => absurd trivial hs⟩
      | _ => cases h
  | write lo hi todo =>
      cases a with
      | write s v =>
          simp only [Producer.step] at h
          split at h
          · cases h
            refine .inr ?_
            split <;> exact id
          · cases h
      | _ => cases h
  | publish hi seq =>
      cases a with
      | publish =>
          cases h
          refine .inr ?_
          split <;> exact id
      | _ => cases h
  | signal =>
      cases a with
      | signal => exact absurd rfl ha
      | _ => cases h

theorem loopStep_cursor (B : BufferSize) (m : Memory α) (c : Consumer) :
    (loopStep B m c).1.cursor = m.cursor ∧
      ∀ s, (loopStep B m c).2 ≠ .wait s ∧ (loopStep B m c).2 ≠ .waiting s := by
  cases c with
  | start nextSeq => simp [loopStep, Consumer.step]
  | scan nextSeq availableSequence seq =>
      simp only [loopStep, Consumer.step]
      split_ifs <;> simp <;> split_ifs <;> simp
  | read seq available =>
      simp only [loopStep, Consumer.step]
      split_ifs <;> simp
  | mark seq available => simp [loopStep, Consumer.step, Memory.markConsumed]
  | gate available => simp [loopStep, Consumer.step, Memory.updateGatingSequence]

/-- The consumer's own steps: it goes to sleep only after it has seen the
cursor below its sequence. -/
theorem attended_consumer {B : BufferSize} {st : System α Waiter} {k : Choice}
    {m' : Memory α} {w' : Waiter} (hst : Attended st)
    (h : st.consumer.step B st.memory k = some (m', w')) :
    Attended { st with memory := m', consumer := w' } := by
  cases hw : st.consumer with
  | loop c =>
      rw [hw] at h
      cases k with
      | go =>
          have hr : loopStep B st.memory c = (m', w') := Option.some.inj h
          have hnot := (loopStep_cursor B st.memory c).2
          rw [hr] at hnot
          rintro s (hs | hs)
          · exact absurd hs (hnot s).1
          · exact absurd hs (hnot s).2
      | spurious => cases h
  | quickCheck s =>
      rw [hw] at h
      cases k with
      | go =>
          simp only [Waiter.step] at h
          split at h <;> cases h <;> rintro t (ht | ht) <;> cases ht
      | spurious => cases h
  | lock s =>
      rw [hw] at h
      cases k with
      | go => cases h; rintro t (ht | ht) <;> cases ht
      | spurious => cases h
  | test s =>
      rw [hw] at h
      cases k with
      | go =>
          simp only [Waiter.step] at h
          split at h
          · rename_i hlt
            cases h
            rintro t (ht | ht) hcursor
            · cases ht
              simp only at hcursor
              omega
            · cases ht
          · cases h
            rintro t (ht | ht) <;> cases ht
      | spurious => cases h
  | wait s =>
      rw [hw] at h
      cases k with
      | go =>
          cases h
          rintro t (ht | ht) hcursor
          · cases ht
          · cases ht
            exact hst s (.inl hw) hcursor
      | spurious => cases h
  | waiting s =>
      rw [hw] at h
      cases k with
      | go => cases h
      | spurious => cases h; rintro t (ht | ht) <;> cases ht
  | woken s =>
      rw [hw] at h
      cases k with
      | go => cases h; rintro t (ht | ht) <;> cases ht
      | spurious => cases h

theorem Waiter.signal_eq {w : Waiter} {s : ℤ}
    (h : w.signal = .wait s ∨ w.signal = .waiting s) : w = .wait s := by
  cases w with
  | wait t => rcases h with h | h <;> cases h; rfl
  | _ => rcases h with h | h <;> cases h

/-- A producer that has called `signal()` is where it was before it called. -/
theorem Producer.step_signal {B : BufferSize} {m m' : Memory α} {q q' : Producer}
    (h : q.step B m .signal = some (m', q')) : q = .signal ∧ m' = m ∧ q' = .idle := by
  cases q <;> first | (cases h; exact ⟨rfl, rfl, rfl⟩) | cases h

theorem attended_step {B : BufferSize} (st : System α Waiter) (a : Action α Choice)
    (st' : System α Waiter) (hst : Attended st) (harr : SignalArrives st a)
    (h : step B st a = some st') : Attended st' := by
  cases a with
  | consumer k =>
      simp only [step, Option.map_eq_some_iff] at h
      obtain ⟨⟨m', w'⟩, hw, rfl⟩ := h
      exact attended_consumer hst hw
  | producer p a =>
      simp only [step, System.stepProducer, Option.map_eq_some_iff] at h
      obtain ⟨⟨m', q'⟩, hq, rfl⟩ := h
      by_cases ha : a = .signal
      · subst ha
        obtain ⟨-, hm, -⟩ := Producer.step_signal hq
        intro s hs hcursor
        -- whoever was in the wait set has been woken: the consumer is still before it
        have hwait := Waiter.signal_eq hs
        simp only [hm] at hcursor
        by_contra hnone
        refine harr ⟨s, hwait, hcursor, fun r hr => ?_⟩
        by_contra hr'
        exact hnone ⟨r, by simpa [hr] using hr'⟩
      · intro s hs hcursor
        simp only at hs
        rcases Producer.step_unsettled hq ha with ⟨hsame, hkeep⟩ | hdebt
        · simp only [hsame] at hcursor
          obtain ⟨r, hr⟩ := hst s hs hcursor
          by_cases hrp : r = p
          · exact ⟨p, by simpa using hkeep (hrp ▸ hr)⟩
          · exact ⟨r, by simpa [hrp] using hr⟩
        · exact ⟨p, by simpa using hdebt⟩

theorem attended_start (blank : α) : Attended (start blank) := by
  rintro s (hs | hs) <;> cases hs

/-- A lost signal strands the consumer as soon as it goes on. -/
theorem stranded_of_lastSignal {B : BufferSize} {st st' : System α Waiter} {p : ℕ}
    (hlast : LastSignalInWindow st p) (h : step B st (.producer p .signal) = some st') :
    ∃ st'', step B st' (.consumer .go) = some st'' ∧ Stranded st'' := by
  obtain ⟨s, hs, hcursor, hothers⟩ := hlast
  simp only [step, System.stepProducer, Option.map_eq_some_iff] at h
  obtain ⟨⟨m', q'⟩, hq, rfl⟩ := h
  obtain ⟨-, rfl, rfl⟩ := Producer.step_signal hq
  refine ⟨⟨st.memory, Function.update st.producers p .idle, .waiting s⟩,
    by simp only [step, hs]; rfl, s, rfl, hcursor, fun r => ?_⟩
  by_cases hr : r = p
  · subst hr
    simp [Producer.Settled]
  · simpa [hr] using hothers r hr

/-- As long as no signal is lost, no state of the run has the consumer asleep
on a claimed sequence with every publication signalled; and every run that
loses a signal is one step of the consumer away from such a state. -/
theorem never_stranded_of_signals_arrive (B : BufferSize) (blank : α)
    (as : List (Action α Choice)) (st : System α Waiter)
    (h : run (step B) (start blank) as = some st) :
    (Guarded (step B) SignalArrives (start blank) as →
        Always (step B) (fun st => ¬ Stranded st) (start blank) as) ∧
      ∀ p st', step B st (.producer p .signal) = some st' → LastSignalInWindow st p →
        ∃ st'', run (step B) (start blank)
            (as ++ [.producer p .signal, .consumer .go]) = some st'' ∧ Stranded st'' := by
  constructor
  · intro hg
    exact always_of_guarded (attended_start blank) attended_step
      (fun _ hst => hst.not_stranded) h hg
  · intro p st' hstep hlast
    obtain ⟨st'', hgo, hstr⟩ := stranded_of_lastSignal hlast hstep
    refine ⟨st'', ?_, hstr⟩
    simp [run_append, h, run, hstep, hgo]

/-- The consumer goes to sleep on sequence `0`; then a producer claims, writes,
publishes and signals. -/
def promptSignal : List (Action ℕ Choice) :=
  List.replicate 6 (Action.consumer .go) ++
    [Action.producer 0 (.call .next), .producer 0 .loadCursor, .producer 0 .loadGating,
      .producer 0 (.compareAndSet false), .producer 0 (.write 0 7), .producer 0 .publish,
      .producer 0 .signal]

theorem promptSignal_never_stranded :
    Guarded (step twoSlots) SignalArrives (start 0) promptSignal ∧
      Always (step twoSlots) (fun st => ¬ Stranded st) (start 0) promptSignal := by
  have hg : Guarded (step twoSlots) SignalArrives (start 0) promptSignal := by
    iterate 12 refine (guarded_cons rfl).mpr ⟨trivial, ?_⟩
    refine (guarded_cons rfl).mpr ⟨?_, fun p hp => by cases hp⟩
    rintro ⟨s, hs, -⟩
    cases hs
  exact ⟨hg, (never_stranded_of_signals_arrive twoSlots 0 promptSignal _ rfl).1 hg⟩

/-- The consumer finds sequence `0` missing and tests the predicate; then a
producer claims, writes, publishes and signals; then the consumer goes to
sleep. -/
def lostSignal : List (Action ℕ Choice) :=
  List.replicate 5 (Action.consumer .go) ++
    [Action.producer 0 (.call .next), .producer 0 .loadCursor, .producer 0 .loadGating,
      .producer 0 (.compareAndSet false), .producer 0 (.write 0 7), .producer 0 .publish,
      .producer 0 .signal, .consumer .go]

theorem lostSignal_stranded :
    ∃ st, run (step twoSlots) (start 0) lostSignal = some st ∧ Stranded st := by
  refine ⟨_, rfl, 0, rfl, by decide, fun p => ?_⟩
  by_cases hp : p = 0
  · subst hp
    trivial
  · simp [hp, start, Producer.Settled]

end Demiplane.Disruptor.BlockingWait

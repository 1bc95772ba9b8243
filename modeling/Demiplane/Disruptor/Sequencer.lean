import Mathlib.Data.Int.ModEq
import Mathlib.Tactic.NormNum
import Demiplane.Ring.Protocol

/-!
`DynamicMultiProducerSequencer` and `DynamicRingBuffer`, at the granularity of
single atomic operations. The shared memory is the cursor, the gating
sequence, one boolean per slot and the slots themselves. A producer is a
program counter that remembers what the calls of `next`, `try_next` and
`next_batch` keep in local variables; every load, store and compare-and-set is
a step of its own, so that another thread may run in between.

Sequences are unbounded integers. The code keeps them in `std::int64_t`, and
the conversion to an index goes through `std::size_t`; the latter is part of
the model because the mask is applied to the converted value.
-/

namespace Demiplane.Disruptor

open RingProtocol

/-! ### Buffer size and index -/

/-- A `buffer_size` with which a sequencer can be constructed. The constructor
throws unless `std::has_single_bit` holds, and the vector of flags cannot be
allocated beyond the range of `std::ptrdiff_t`. -/
structure BufferSize where
  size : ℕ
  hasSingleBit : ∃ k, size = 2 ^ k
  size_lt : size < 2 ^ 63

def twoSlots : BufferSize := ⟨2, ⟨1, rfl⟩, by decide⟩

namespace BufferSize

/-- `static_cast<std::size_t>(sequence) & index_mask_`. -/
def index (B : BufferSize) (sequence : ℤ) : ℕ :=
  (sequence % 2 ^ 64).toNat &&& (B.size - 1)

theorem size_pos (B : BufferSize) : 0 < B.size := by
  obtain ⟨k, hk⟩ := B.hasSingleBit
  rw [hk]
  exact Nat.two_pow_pos k

theorem index_eq_emod (B : BufferSize) (s : ℤ) : (B.index s : ℤ) = s % B.size := by
  obtain ⟨k, hk⟩ := B.hasSingleBit
  have hlt : (2 : ℕ) ^ k < 2 ^ 63 := hk ▸ B.size_lt
  have hk63 : k < 63 := (Nat.pow_lt_pow_iff_right (by decide)).mp hlt
  have hdvd : (2 : ℤ) ^ k ∣ 2 ^ 64 := pow_dvd_pow 2 (by omega)
  have hnonneg : 0 ≤ s % 2 ^ 64 := Int.emod_nonneg s (by norm_num)
  rw [index, hk, Nat.and_two_pow_sub_one_eq_mod]
  rw [Int.natCast_mod, Int.toNat_of_nonneg hnonneg, Nat.cast_pow, Nat.cast_ofNat,
    Int.emod_emod_of_dvd s hdvd]

/-- Within one window of the buffer a slot belongs to one sequence. -/
theorem index_inj (B : BufferSize) {s t : ℤ} (h : B.index s = B.index t)
    (hst : s - t < B.size) (hts : t - s < B.size) : s = t := by
  have hmod : s % B.size = t % B.size := by
    rw [← index_eq_emod, ← index_eq_emod, h]
  have hdvd : (B.size : ℤ) ∣ t - s := Int.ModEq.dvd hmod
  have habs : |t - s| < (B.size : ℤ) := abs_lt.mpr ⟨by omega, by omega⟩
  have := Int.eq_zero_of_abs_lt_dvd hdvd habs
  omega

end BufferSize

/-! ### Shared memory -/

/-- `cursor_`, `gating_sequence_`, `available_flags_` and the storage of the
ring buffer. -/
structure Memory (α : Type*) where
  cursor : ℤ
  gatingSequence : ℤ
  availableFlags : ℕ → Bool
  ringBuffer : ℕ → α

namespace Memory

variable {α : Type*}

/-- The state after construction; `T{}` is the value of every slot. -/
def init (blank : α) : Memory α where
  cursor := -1
  gatingSequence := -1
  availableFlags _ := false
  ringBuffer _ := blank

def isAvailable (B : BufferSize) (m : Memory α) (sequence : ℤ) : Bool :=
  m.availableFlags (B.index sequence)

/-- The store of `publish`, and of one round of `publish_batch`. -/
def setAvailable (B : BufferSize) (m : Memory α) (sequence : ℤ) : Memory α :=
  { m with availableFlags := Function.update m.availableFlags (B.index sequence) true }

def markConsumed (B : BufferSize) (m : Memory α) (sequence : ℤ) : Memory α :=
  { m with availableFlags := Function.update m.availableFlags (B.index sequence) false }

def updateGatingSequence (m : Memory α) (sequence : ℤ) : Memory α :=
  { m with gatingSequence := sequence }

/-- `ring_buffer[sequence]`. -/
def get (B : BufferSize) (m : Memory α) (sequence : ℤ) : α :=
  m.ringBuffer (B.index sequence)

/-- `ring_buffer[sequence] = v`. -/
def put (B : BufferSize) (m : Memory α) (sequence : ℤ) (v : α) : Memory α :=
  { m with ringBuffer := Function.update m.ringBuffer (B.index sequence) v }

end Memory

/-! ### Producers -/

/-- The calls by which a producer claims. -/
inductive Claim where
  | next
  | tryNext
  | nextBatch (n : ℤ)
  deriving DecidableEq

/-- How many sequences a successful call claims. -/
def Claim.count : Claim → ℤ
  | .next => 1
  | .tryNext => 1
  | .nextBatch n => n

/-- The sizes a batch may have. -/
def Claim.Valid (B : BufferSize) (c : Claim) : Prop :=
  1 ≤ c.count ∧ c.count ≤ B.size

instance (B : BufferSize) (c : Claim) : Decidable (c.Valid B) :=
  inferInstanceAs (Decidable (_ ∧ _))

/-- Where a producer stands: in a claim, writing what it claimed, in
`publish` or `publish_batch`, or before the `signal()` at its end. -/
inductive Producer where
  | idle
  | loadCursor (c : Claim)
  | loadGating (c : Claim) (current : ℤ)
  | spin (c : Claim) (current : ℤ)
  | compareAndSet (c : Claim) (current : ℤ)
  | write (lo hi : ℤ) (todo : List ℤ)
  | publish (hi seq : ℤ)
  | signal
  deriving DecidableEq

/-- The steps of a producer. A claimed range is written in any order, and
`compare_exchange_weak` may fail spuriously. -/
inductive ProducerAction (α : Type*) where
  | call (c : Claim)
  | loadCursor
  | loadGating
  | compareAndSet (spurious : Bool)
  | write (s : ℤ) (v : α)
  | publish
  | signal

/-- `next - static_cast<std::int64_t>(buffer_size_)`, where `next` is the last
sequence the call is about to claim. -/
def wrapPoint (B : BufferSize) (c : Claim) (current : ℤ) : ℤ :=
  current + c.count - B.size

/-- A full buffer or a lost race: `try_next` gives up with `-1`, the loops of
`next` and `next_batch` go on as they say. -/
def Claim.orElse (c : Claim) (retry : Producer) : Producer :=
  match c with
  | .tryNext => .idle
  | .next | .nextBatch _ => retry

variable {α : Type*}

def Producer.step (B : BufferSize) (m : Memory α) :
    Producer → ProducerAction α → Option (Memory α × Producer)
  | .idle, .call c => if c.Valid B then some (m, .loadCursor c) else none
  | .loadCursor c, .loadCursor => some (m, .loadGating c m.cursor)
  | .loadGating c current, .loadGating =>
      if wrapPoint B c current > m.gatingSequence then
        some (m, c.orElse (.spin c current))
      else some (m, .compareAndSet c current)
  | .spin c current, .loadGating =>
      if wrapPoint B c current > m.gatingSequence then some (m, .spin c current)
      else some (m, .compareAndSet c current)
  | .compareAndSet c current, .compareAndSet spurious =>
      if m.cursor = current ∧ spurious = false then
        let lo := current + 1
        let hi := current + c.count
        some ({ m with cursor := hi }, .write lo hi (span lo hi))
      else some (m, c.orElse (.loadCursor c))
  | .write lo hi todo, .write s v =>
      if s ∈ todo then
        let rest := todo.erase s
        some (m.put B s v, if rest = [] then .publish hi lo else .write lo hi rest)
      else none
  | .publish hi seq, .publish =>
      some (m.setAvailable B seq, if seq < hi then .publish hi (seq + 1) else .signal)
  | .signal, .signal => some (m, .idle)
  | _, _ => none

/-- What a step of producer `p` amounts to in the claim/publish protocol. -/
def Producer.emit {P : Type*} (p : P) (m : Memory α) :
    Producer → ProducerAction α → List (Event P α)
  | .compareAndSet c current, .compareAndSet spurious =>
      if m.cursor = current ∧ spurious = false then
        [.claim p (current + 1) (current + c.count)]
      else []
  | .write _ _ _, .write s v => [.write p s v]
  | .publish _ seq, .publish => [.publish p seq]
  | _, _ => []

/-- The producer has called `signal()` for everything it has claimed. -/
def Producer.Settled : Producer → Prop
  | .write _ _ _ | .publish _ _ | .signal => False
  | _ => True

end Demiplane.Disruptor

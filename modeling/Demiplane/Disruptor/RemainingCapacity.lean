import Demiplane.Disruptor.Delivery

/-!
`remaining_capacity` loads the cursor and then the gating sequence, and other threads may run
between the two loads. The gating sequence only grows, so that the number never falls below
zero; it exceeds the size of the buffer when the consumer has meanwhile given back what was not
yet claimed at the first load.
-/

namespace Demiplane.Disruptor

open RingProtocol Transition

variable {α : Type*}

/-- `remaining_capacity`: the cursor is loaded from the first memory, the gating sequence from
the second. -/
def remainingCapacity (B : BufferSize) (first second : Memory α) : ℤ :=
  let cursorValue := first.cursor
  let gatingValue := second.gatingSequence
  let consumed := gatingValue
  let produced := cursorValue
  B.size - (produced - consumed)

/-- The number is in range exactly if the consumer has not, between the loads, moved the gating
sequence beyond the cursor that was loaded. -/
theorem remainingCapacity_in_range_iff (B : BufferSize) (blank : α)
    (before between : List (Action α Unit)) (st st' : System α Consumer)
    (hfirst : run (step B) (start blank) before = some st)
    (hsecond : run (step B) st between = some st') :
    (0 ≤ remainingCapacity B st.memory st'.memory ∧
        remainingCapacity B st.memory st'.memory ≤ B.size) ↔
      ∀ s, Event.release s ∈ trace (step B) (emit B) st between → s ≤ st.memory.cursor := by
  obtain ⟨d, -, hrep⟩ := simulation (represents_start B blank) represents_step hfirst
  obtain ⟨d', hrun, hrep'⟩ := simulation hrep represents_step hsecond
  obtain ⟨hgrows, hall, hlast⟩ := released_of_run hrun
  have hroom := hrep.memory.wf.cursor_le
  have hbelow : d.released ≤ d.cursor := by
    have hwf := hrep.memory.wf
    exact (hwf.released_le.trans hwf.marked_le).trans hwf.processed_le
  rw [remainingCapacity, hrep.memory.cursor, hrep'.memory.gating]
  constructor
  · rintro ⟨-, hle⟩ s hs
    have := hall s hs
    omega
  · intro hreleased
    have hle : d'.released ≤ d.cursor := by
      rcases hlast with hsame | hmem
      · omega
      · exact hreleased _ hmem
    omega

/-- The value is published before the first load and consumed between the loads. -/
theorem remainingCapacity_across_release :
    ∃ st st', run (step twoSlots) (start 0) (oneRound.take 7) = some st ∧
      run (step twoSlots) st (oneRound.drop 7) = some st' ∧
      0 ≤ remainingCapacity twoSlots st.memory st'.memory ∧
      remainingCapacity twoSlots st.memory st'.memory ≤ twoSlots.size := by
  refine ⟨_, _, rfl, rfl, ?_⟩
  refine (remainingCapacity_in_range_iff twoSlots 0 (oneRound.take 7) (oneRound.drop 7) _ _ rfl
    rfl).2 fun s hs => ?_
  change Event.release s ∈ [.process 0 7, .mark 0, .release 0] at hs
  obtain rfl : s = 0 := by simpa using hs
  decide

/-- A whole round between the loads: three places in a buffer of two. -/
theorem remainingCapacity_across_oneRound :
    ∃ st, run (step twoSlots) (start 0) oneRound = some st ∧
      remainingCapacity twoSlots (start 0).memory st.memory = 3 ∧
      ¬ remainingCapacity twoSlots (start 0).memory st.memory ≤ twoSlots.size :=
  ⟨_, rfl, rfl, by decide⟩

end Demiplane.Disruptor

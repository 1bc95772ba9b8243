import Demiplane.Postgres.Steps

/-!
The capacity of the pool. `created_` counts the holders, but it is tested in
one critical section and incremented in another, with the attempt to connect
in between: any number of calls can pass the test before the first of them
registers its holder. The pool stays within its capacity exactly as long as
every holder is registered while there is still room.
-/

namespace Demiplane.Postgres

open Transition
open PoolConfig (minimal)

namespace Pool

/-- Before shutdown `created_` is the number of holders. -/
def Counted (st : Pool) : Prop := st.isShutdown = false → st.created = st.holders.length

theorem counted_start (cfg : PoolConfig.Valid) (attempts : ℕ → Bool) :
    Counted (start cfg attempts) := by
  obtain ⟨n, -, hidle⟩ := start_eq cfg attempts
  rw [hidle]
  intro _
  simp [idle]

theorem counted_step {cfg : PoolConfig.Valid} {st st' : Pool} {a : Action} (hf : Flagged st)
    (h : Counted st) (hstep : Step cfg st a st') : Counted st' := by
  intro hs'
  cases hstep with
  | relockCreated hc hs =>
      have := h hs'
      simpa [deliver] using this
  | resetDropped hc hs hh =>
      have := h hs'
      simp only [List.length_erase_of_mem hh]
      omega
  | exchanged hc => simp at hs'
  | cleared hc =>
      have hidle := hf.mp hs'
      rw [hc] at hidle
      cases hidle
  | _ => exact h hs'

/-- The pool has no more holders than its capacity, before shutdown. -/
def WithinCapacity (cfg : PoolConfig.Valid) (st : Pool) : Prop :=
  st.isShutdown = false → st.holders.length ≤ cfg.1.capacity

/-- A call that has connected finds room for its holder when it has the mutex
again. -/
def RegistersWithRoom (cfg : PoolConfig.Valid) (st : Pool) : Action → Prop
  | .relock _ true => st.isShutdown = false → st.created < cfg.1.capacity
  | _ => True

/-- A step out of a state within the capacity stays there exactly when it
finds room. -/
theorem withinCapacity_step_iff {cfg : PoolConfig.Valid} {st st' : Pool} {a : Action}
    (hcount : Counted st) (h : WithinCapacity cfg st)
    (hstep : Step cfg st a st') : WithinCapacity cfg st' ↔ RegistersWithRoom cfg st a := by
  cases hstep with
  | relockCreated hc hs =>
      refine forall_congr' fun hs' => ?_
      have := hcount hs'
      simp only [deliver, List.length_append, List.length_singleton]
      omega
  | @relockAborted c k connected hc hk hs =>
      have hroom : RegistersWithRoom cfg st (.relock c connected) := by
        cases connected with
        | true => exact fun hs' => absurd (hs.symm.trans hs') (by simp)
        | false => trivial
      exact iff_of_true h hroom
  | resetDropped hc hs hh =>
      refine iff_of_true (fun hs' => ?_) trivial
      have := h hs'
      simp only [List.length_erase_of_mem hh]
      omega
  | cleared hc => exact iff_of_true (fun _ => Nat.zero_le _) trivial
  | exchanged hc => exact iff_of_true (fun hs' => by simp at hs') trivial
  | _ => exact iff_of_true h trivial

/-- In every interleaving, the pool is within its capacity throughout exactly
when every call that has connected finds room for its holder. -/
theorem withinCapacity_iff_registersWithRoom (cfg : PoolConfig.Valid) (attempts : ℕ → Bool)
    (as : List Action) (st : Pool) (h : run (step cfg) (start cfg attempts) as = some st) :
    Always (step cfg) (WithinCapacity cfg) (start cfg attempts) as ↔
      Guarded (step cfg) (RegistersWithRoom cfg) (start cfg attempts) as := by
  refine always_iff_guarded (I := fun st => Flagged st ∧ Counted st)
    ⟨flagged_start cfg attempts, counted_start cfg attempts⟩ ?_ ?_ ?_ h
  · intro st a st' hi hstep
    have hcases := step_cases hstep
    exact ⟨flagged_step hi.1 hcases, counted_step hi.1 hi.2 hcases⟩
  · intro _
    obtain ⟨n, hn, hidle⟩ := start_eq cfg attempts
    have := cfg.minConnections_le
    rw [hidle]
    simp only [idle, List.length_range]
    omega
  · intro st a st' hi hP hstep
    exact withinCapacity_step_iff hi.2 hP (step_cases hstep)

/-- One call takes the holder the constructor made; another connects and
registers a second. -/
def secondConnection : List Action :=
  [.call 0 .tryAcquire, .lock 0, .call 1 .tryAcquire, .lock 1, .relock 1 true]

theorem withinCapacity_secondConnection :
    Guarded (step minimal) (RegistersWithRoom minimal) (start minimal fun _ => true)
        secondConnection ∧
      Always (step minimal) (WithinCapacity minimal) (start minimal fun _ => true)
        secondConnection := by
  have hg : Guarded (step minimal) (RegistersWithRoom minimal) (start minimal fun _ => true)
      secondConnection := by
    iterate 4 refine (guarded_cons rfl).mpr ⟨trivial, ?_⟩
    exact (guarded_cons rfl).mpr ⟨fun _ => (by decide), fun a ha => (by cases ha)⟩
  exact ⟨hg, (withinCapacity_iff_registersWithRoom minimal _ secondConnection _ rfl).mpr hg⟩

/-- Two calls find `created_ < capacity` before either registers its holder. -/
def twoConnections : List Action :=
  [.call 0 .tryAcquire, .lock 0, .call 1 .tryAcquire, .call 2 .tryAcquire, .lock 1, .lock 2,
    .relock 1 true, .relock 2 true]

theorem twoConnections_exceed_capacity :
    ∃ st, run (step minimal) (start minimal fun _ => true) twoConnections = some st ∧
      st.isShutdown = false ∧ st.holders.length = 3 ∧ minimal.1.capacity = 2 :=
  ⟨_, rfl, rfl, rfl, rfl⟩

end Pool

end Demiplane.Postgres

import Mathlib.Computability.StateTransition
import Demiplane.Postgres.LockFree.Exclusivity
import Demiplane.Scan.Cyclic

/-!
`acquire_slot` while nothing else runs. Both loops are cyclic scans of the
slots from the hint on: the first takes the first FREE slot, the second tries to
connect the INACTIVE slots in turn and marks those DEAD for which that fails. A
call makes one attempt for a slot at most, so that what the attempts come to is
a function of the slot.
-/

namespace Demiplane.Postgres.LockFree

open Relation (ReflTransGen)
open Scan (cell FirstFrom Earlier cell_lt cell_inj exists_cell exists_firstFrom earlier_cell)
open StateTransition (Reaches eval mem_eval)
open Transition (run)
open PoolConfig (minimal)

namespace ConnectionPool

/-! ### The call on its own -/

/-- What call `c` does next, until `acquire_slot` returns. -/
def nextAction (cfg : PoolConfig.Valid) (attempts : ℕ → Bool) (c : ℕ) : Call → Option Action
  | .idle => some (.call c)
  | .entered => some (.readHint c)
  | .scanningFree _ _ | .scanningInactive _ _ => some (.compareExchange c)
  | .creating start i => some (.createConnection c (attempts (slotIndex cfg start i)))
  | .failed _ _ => some (.storeDead c)
  | .connected _ _ _ => some (.replaceConn c)
  | .taken _ => some (.setHint c)
  | .borrowing _ | .resetting _ | .cleaned _ _ | .returned => none

def advance (cfg : PoolConfig.Valid) (attempts : ℕ → Bool) (c : ℕ) (st : ConnectionPool) :
    Option ConnectionPool :=
  (nextAction cfg attempts c (st.calls c)).bind (st.step cfg)

/-- `acquire_slot()`, called by `c`. -/
def acquireSlot (cfg : PoolConfig.Valid) (attempts : ℕ → Bool) (c : ℕ) (st : ConnectionPool) :
    Part ConnectionPool :=
  eval (advance cfg attempts c) st

theorem slotIndex_eq_cell (cfg : PoolConfig.Valid) (start i : ℕ) :
    slotIndex cfg start i = cell cfg.1.capacity start i := by
  obtain ⟨k, hk⟩ := cfg.capacity_eq_two_pow
  rw [slotIndex, hk, Nat.and_two_pow_sub_one_eq_mod, cell]

/-- In the source the sum is a `std::size_t` and may wrap; the mask does not see
it. -/
theorem slotIndex_wraps (cfg : PoolConfig.Valid) (start i : ℕ) (h : cfg.1.capacity < 2 ^ 64) :
    (start + i) % 2 ^ 64 &&& (cfg.1.capacity - 1) = slotIndex cfg start i := by
  obtain ⟨k, hk⟩ := cfg.capacity_eq_two_pow
  have hk64 : k < 64 := (Nat.pow_lt_pow_iff_right (by decide)).mp (hk ▸ h)
  have hdvd : 2 ^ k ∣ 2 ^ 64 := Nat.pow_dvd_pow 2 hk64.le
  rw [slotIndex, hk, Nat.and_two_pow_sub_one_eq_mod, Nat.and_two_pow_sub_one_eq_mod,
    Nat.mod_mod_of_dvd _ hdvd]

section Loops

variable {cfg : PoolConfig.Valid} {attempts : ℕ → Bool} {c : ℕ} {st : ConnectionPool}

@[simp] theorem calls_setCall (call : Call) : (st.setCall c call).calls c = call := by
  simp [setCall]

@[simp] theorem slots_setCall (call : Call) : (st.setCall c call).slots = st.slots := rfl

@[simp] theorem hintCursor_setCall (call : Call) :
    (st.setCall c call).hintCursor = st.hintCursor :=
  rfl

@[simp] theorem setCall_setCall (call call' : Call) :
    (st.setCall c call).setCall c call' = st.setCall c call' := by
  simp [setCall]

@[simp] theorem storeStatus_setCall (call : Call) (idx : ℕ) (status : SlotStatus) :
    (st.setCall c call).storeStatus idx status = (st.storeStatus idx status).setCall c call :=
  rfl

@[simp] theorem setSlot_setCall (call : Call) (idx : ℕ) (slot : SlotHolder) :
    (st.setCall c call).setSlot idx slot = (st.setSlot idx slot).setCall c call :=
  rfl

theorem storeStatus_slots_of_ne {i idx : ℕ} (h : i ≠ idx) (status : SlotStatus) :
    (st.storeStatus idx status).slots i = st.slots i :=
  Function.update_of_ne h _ _

@[simp] theorem storeStatus_storeStatus (idx : ℕ) (status status' : SlotStatus) :
    (st.storeStatus idx status).storeStatus idx status' = st.storeStatus idx status' := by
  simp [storeStatus, setSlot]

theorem storeStatus_status (idx : ℕ) (status : SlotStatus) :
    ((st.storeStatus idx status).slots idx).status = status := by
  simp [storeStatus, setSlot]

/-- `st'` is `st` after `c` has got the slot `idx`. -/
structure Lends (c idx : ℕ) (st st' : ConnectionPool) : Prop where
  borrowing : st'.calls c = .borrowing idx
  used : (st'.slots idx).status = .used
  others : ∀ i, i ≠ idx → st'.slots i = st.slots i

/-- Both loops end with a slot in the same way. -/
theorem lends_of_taken {idx : ℕ} (hs : (st.slots idx).status = .used) :
    ∃ st', Reaches (advance cfg attempts c) (st.setCall c (.taken idx)) st' ∧
      Lends c idx st st' := by
  have hset : advance cfg attempts c (st.setCall c (.taken idx)) =
      some ({ st.setCall c (.taken idx) with
        hintCursor := (idx + 1) &&& (cfg.1.capacity - 1) }.setCall c (.borrowing idx)) := by
    simp [advance, nextAction, step, setHint]
  exact ⟨_, ReflTransGen.single hset, calls_setCall _, hs, fun _ _ => rfl⟩

/-! ### The first loop -/

theorem scanFree_of_lt {start k : ℕ} (hk : k < cfg.1.capacity) :
    scanFree cfg start k = .scanningFree start k :=
  if_pos hk

theorem advance_passesFree {start k : ℕ} (hk : k < cfg.1.capacity)
    (hs : (st.slots (cell cfg.1.capacity start k)).status ≠ .free) :
    advance cfg attempts c (st.setCall c (scanFree cfg start k)) =
      some (st.setCall c (scanFree cfg start (k + 1))) := by
  rw [← slotIndex_eq_cell] at hs
  simp [advance, nextAction, step, compareExchange, scanFree_of_lt hk, hs]

theorem passesFree {start m : ℕ} (hm : m ≤ cfg.1.capacity)
    (hs : ∀ k < m, (st.slots (cell cfg.1.capacity start k)).status ≠ .free) :
    Reaches (advance cfg attempts c) (st.setCall c (scanFree cfg start 0))
      (st.setCall c (scanFree cfg start m)) := by
  induction m with
  | zero => exact ReflTransGen.refl
  | succ m ih =>
      have hbefore := ih (Nat.le_of_succ_le hm) fun k hk => hs k (Nat.lt_succ_of_lt hk)
      exact hbefore.tail (advance_passesFree hm (hs m m.lt_succ_self))

theorem takesFree {start k : ℕ} (hk : k < cfg.1.capacity)
    (hs : (st.slots (cell cfg.1.capacity start k)).status = .free) :
    ∃ st', Reaches (advance cfg attempts c) (st.setCall c (scanFree cfg start k)) st' ∧
      Lends c (cell cfg.1.capacity start k) st st' := by
  rw [← slotIndex_eq_cell] at hs ⊢
  have htake : advance cfg attempts c (st.setCall c (scanFree cfg start k)) =
      some ((st.storeStatus (slotIndex cfg start k) .used).setCall c
        (.taken (slotIndex cfg start k))) := by
    simp [advance, nextAction, step, compareExchange, scanFree_of_lt hk, hs]
  obtain ⟨st', hset, hlends⟩ := lends_of_taken (storeStatus_status (slotIndex cfg start k) .used)
  refine ⟨st', ReflTransGen.head htake hset, hlends.borrowing, hlends.used, fun i hi => ?_⟩
  exact (hlends.others i hi).trans (storeStatus_slots_of_ne hi .used)

/-! ### The second loop -/

theorem scanInactive_of_lt {start k : ℕ} (hk : k < cfg.1.capacity) :
    scanInactive cfg start k = .scanningInactive start k :=
  if_pos hk

theorem advance_passesInactive {start k : ℕ} (hk : k < cfg.1.capacity)
    (hs : (st.slots (cell cfg.1.capacity start k)).status ≠ .inactive) :
    advance cfg attempts c (st.setCall c (scanInactive cfg start k)) =
      some (st.setCall c (scanInactive cfg start (k + 1))) := by
  rw [← slotIndex_eq_cell] at hs
  simp [advance, nextAction, step, compareExchange, scanInactive_of_lt hk, hs]

theorem advance_tookInactive (attempts : ℕ → Bool) (c : ℕ) {start k : ℕ}
    (hk : k < cfg.1.capacity)
    (hs : (st.slots (cell cfg.1.capacity start k)).status = .inactive) :
    advance cfg attempts c (st.setCall c (scanInactive cfg start k)) =
      some ((st.storeStatus (cell cfg.1.capacity start k) .used).setCall c
        (.creating start k)) := by
  rw [← slotIndex_eq_cell] at hs ⊢
  simp [advance, nextAction, step, compareExchange, scanInactive_of_lt hk, hs]

/-- A turn at an INACTIVE slot that does not connect. -/
theorem marksDead {start k : ℕ} (hk : k < cfg.1.capacity)
    (hs : (st.slots (cell cfg.1.capacity start k)).status = .inactive)
    (hfails : attempts (cell cfg.1.capacity start k) = false) :
    Reaches (advance cfg attempts c) (st.setCall c (scanInactive cfg start k))
      ((st.storeStatus (cell cfg.1.capacity start k) .dead).setCall c
        (scanInactive cfg start (k + 1))) := by
  have htake := advance_tookInactive attempts c hk hs
  rw [← slotIndex_eq_cell] at *
  have hfail : advance cfg attempts c
      ((st.storeStatus (slotIndex cfg start k) .used).setCall c (.creating start k)) =
      some ((st.storeStatus (slotIndex cfg start k) .used).setCall c (.failed start k)) := by
    simp [advance, nextAction, step, createConnection, hfails]
  have hstore : advance cfg attempts c
      ((st.storeStatus (slotIndex cfg start k) .used).setCall c (.failed start k)) =
      some ((st.storeStatus (slotIndex cfg start k) .dead).setCall c
        (scanInactive cfg start (k + 1))) := by
    simp [advance, nextAction, step, storeDead]
  exact ReflTransGen.head htake (ReflTransGen.head hfail (ReflTransGen.single hstore))

theorem lends_of_connected {start k : ℕ} {conn : Conn}
    (hs : (st.slots (cell cfg.1.capacity start k)).status = .used) :
    ∃ st', Reaches (advance cfg attempts c) (st.setCall c (.connected start k conn)) st' ∧
      Lends c (cell cfg.1.capacity start k) st st' := by
  rw [← slotIndex_eq_cell] at hs ⊢
  generalize hidx : slotIndex cfg start k = idx at hs ⊢
  have hreplace : advance cfg attempts c (st.setCall c (.connected start k conn)) =
      some ((st.setSlot idx ((st.slots idx).replaceConn (some conn))).setCall c
        (.taken idx)) := by
    simp [advance, nextAction, step, replaceConn, hidx]
  have hused : ((st.setSlot idx ((st.slots idx).replaceConn (some conn))).slots idx).status =
      .used := by
    simp [setSlot, SlotHolder.replaceConn, hs]
  obtain ⟨st', hset, hlends⟩ := lends_of_taken hused
  refine ⟨st', ReflTransGen.head hreplace hset, hlends.borrowing, hlends.used, fun i hi => ?_⟩
  exact (hlends.others i hi).trans (Function.update_of_ne hi _ _)

theorem lends_of_creating {start k : ℕ}
    (hs : (st.slots (cell cfg.1.capacity start k)).status = .used)
    (hconnects : attempts (cell cfg.1.capacity start k) = true) :
    ∃ st', Reaches (advance cfg attempts c) (st.setCall c (.creating start k)) st' ∧
      Lends c (cell cfg.1.capacity start k) st st' := by
  have hconn : advance cfg attempts c (st.setCall c (.creating start k)) =
      some ({ st with fresh := st.fresh + 1 }.setCall c (.connected start k st.fresh)) := by
    rw [← slotIndex_eq_cell] at hconnects
    simp [advance, nextAction, step, createConnection, hconnects, setCall]
  have hused : ({ st with fresh := st.fresh + 1 }.slots
      (cell cfg.1.capacity start k)).status = .used := hs
  obtain ⟨st', hreplace, hlends⟩ := lends_of_connected hused
  exact ⟨st', ReflTransGen.head hconn hreplace, hlends.borrowing, hlends.used, hlends.others⟩

/-- A turn at an INACTIVE slot that connects. -/
theorem connects {start k : ℕ} (hk : k < cfg.1.capacity)
    (hs : (st.slots (cell cfg.1.capacity start k)).status = .inactive)
    (hconnects : attempts (cell cfg.1.capacity start k) = true) :
    ∃ st', Reaches (advance cfg attempts c) (st.setCall c (scanInactive cfg start k)) st' ∧
      Lends c (cell cfg.1.capacity start k) st st' := by
  have htake := advance_tookInactive attempts c hk hs
  obtain ⟨st', hcreate, hlends⟩ := lends_of_creating (storeStatus_status _ .used) hconnects
  refine ⟨st', ReflTransGen.head htake hcreate, hlends.borrowing, hlends.used, fun i hi => ?_⟩
  exact (hlends.others i hi).trans (storeStatus_slots_of_ne hi .used)

/-- The pool after `m` turns of the second loop that did not connect. -/
def markDead (cfg : PoolConfig.Valid) (start : ℕ) (st : ConnectionPool) : ℕ → ConnectionPool
  | 0 => st
  | m + 1 =>
      let idx := cell cfg.1.capacity start m
      let passed := markDead cfg start st m
      if (passed.slots idx).status = .inactive then passed.storeStatus idx .dead else passed

/-- What the turns leave alone: a slot not visited yet, or not INACTIVE. -/
theorem markDead_slots {start m i : ℕ} (hm : m ≤ cfg.1.capacity)
    (h : ∀ k < m, cell cfg.1.capacity start k = i → (st.slots i).status ≠ .inactive) :
    (markDead cfg start st m).slots i = st.slots i := by
  induction m with
  | zero => rfl
  | succ m ih =>
      have hprev := ih (Nat.le_of_succ_le hm) fun k hk => h k (Nat.lt_succ_of_lt hk)
      rw [markDead]
      split
      · rename_i hinactive
        have hne : i ≠ cell cfg.1.capacity start m := by
          rintro rfl
          rw [hprev] at hinactive
          exact h m m.lt_succ_self rfl hinactive
        rw [storeStatus_slots_of_ne hne, hprev]
      · exact hprev

theorem markDead_unvisited (st : ConnectionPool) (start : ℕ) {m : ℕ} (hm : m < cfg.1.capacity) :
    (markDead cfg start st m).slots (cell cfg.1.capacity start m) =
      st.slots (cell cfg.1.capacity start m) := by
  refine markDead_slots hm.le fun k hk hcell => ?_
  exact absurd (cell_inj (hk.trans hm) hm hcell) hk.ne

theorem markDead_dead {start m k : ℕ} (hm : m ≤ cfg.1.capacity) (hk : k < m)
    (hs : (st.slots (cell cfg.1.capacity start k)).status = .inactive) :
    ((markDead cfg start st m).slots (cell cfg.1.capacity start k)).status = .dead := by
  induction m with
  | zero => exact absurd hk k.not_lt_zero
  | succ m ih =>
      rw [markDead]
      rcases Nat.lt_succ_iff_lt_or_eq.mp hk with hlt | rfl
      · have hdead := ih (Nat.le_of_succ_le hm) hlt
        split
        · by_cases hcell : cell cfg.1.capacity start k = cell cfg.1.capacity start m
          · rw [hcell, storeStatus_status]
          · rw [storeStatus_slots_of_ne hcell, hdead]
        · exact hdead
      · rw [if_pos (by rw [markDead_unvisited st start hm, hs]), storeStatus_status]

theorem passesInactive (c start : ℕ) {m : ℕ} (hm : m ≤ cfg.1.capacity)
    (hfails : ∀ k < m, (st.slots (cell cfg.1.capacity start k)).status = .inactive →
      attempts (cell cfg.1.capacity start k) = false) :
    Reaches (advance cfg attempts c) (st.setCall c (scanInactive cfg start 0))
      ((markDead cfg start st m).setCall c (scanInactive cfg start m)) := by
  induction m with
  | zero => exact ReflTransGen.refl
  | succ m ih =>
      have hbefore := ih (Nat.le_of_succ_le hm) fun k hk => hfails k (Nat.lt_succ_of_lt hk)
      refine hbefore.trans ?_
      have hunvisited := markDead_unvisited st start hm
      rw [markDead]
      split
      · rename_i hinactive
        refine marksDead hm hinactive (hfails m m.lt_succ_self ?_)
        rw [← hunvisited, hinactive]
      · rename_i hactive
        exact ReflTransGen.single (advance_passesInactive hm hactive)

/-! ### The whole call -/

theorem acquireSlot_eq_some {st' : ConnectionPool}
    (h : Reaches (advance cfg attempts c) st st')
    (hdone : nextAction cfg attempts c (st'.calls c) = none) :
    acquireSlot cfg attempts c st = Part.some st' :=
  Part.eq_some_iff.mpr (mem_eval.mpr ⟨h, by rw [advance, hdone, Option.bind_none]⟩)

theorem acquireSlot_shutdown (hc : st.calls c = .idle) (hs : st.isShutdown = true) :
    acquireSlot cfg attempts c st = Part.some (st.setCall c .returned) := by
  have hcall : advance cfg attempts c st = some (st.setCall c .returned) := by
    simp [advance, nextAction, hc, step, hs]
  exact acquireSlot_eq_some (ReflTransGen.single hcall) (by rw [calls_setCall]; rfl)

theorem entersFree (hc : st.calls c = .idle) (hs : st.isShutdown = false) :
    Reaches (advance cfg attempts c) st (st.setCall c (scanFree cfg st.hintCursor 0)) := by
  have hcall : advance cfg attempts c st = some (st.setCall c .entered) := by
    simp [advance, nextAction, hc, step, hs]
  have hread : advance cfg attempts c (st.setCall c .entered) =
      some (st.setCall c (scanFree cfg st.hintCursor 0)) := by
    simp [advance, nextAction, step]
  exact ReflTransGen.head hcall (ReflTransGen.single hread)

theorem entersInactive (hc : st.calls c = .idle) (hs : st.isShutdown = false)
    (hnone : ∀ i < cfg.1.capacity, (st.slots i).status ≠ .free) :
    Reaches (advance cfg attempts c) st (st.setCall c (scanInactive cfg st.hintCursor 0)) := by
  have hend : scanFree cfg st.hintCursor cfg.1.capacity = scanInactive cfg st.hintCursor 0 := by
    rw [scanFree, if_neg (lt_irrefl _), scanInactive_of_lt cfg.capacity_pos]
  refine (entersFree hc hs).trans ?_
  rw [← hend]
  exact passesFree le_rfl fun k _ => hnone _ (cell_lt cfg.capacity_pos k)

theorem acquireSlot_free (hc : st.calls c = .idle) (hs : st.isShutdown = false) {idx : ℕ}
    (hfirst : FirstFrom cfg.1.capacity st.hintCursor (fun i => (st.slots i).status = .free) idx) :
    ∃ st', acquireSlot cfg attempts c st = Part.some st' ∧ Lends c idx st st' := by
  obtain ⟨k, hk, rfl, hfree, hbefore⟩ := hfirst
  obtain ⟨st', htake, hlends⟩ := takesFree hk hfree
  refine ⟨st', acquireSlot_eq_some ?_ (by rw [hlends.borrowing]; rfl), hlends⟩
  exact ((entersFree hc hs).trans (passesFree hk.le hbefore)).trans htake

/-- The slot `i` is INACTIVE and comes before `idx`, and connecting it fails. -/
def FailsBefore (cfg : PoolConfig.Valid) (attempts : ℕ → Bool) (st : ConnectionPool)
    (idx i : ℕ) : Prop :=
  Earlier cfg.1.capacity st.hintCursor i idx ∧ (st.slots i).status = .inactive ∧
    attempts i = false

/-- `st'` is `st` after `c` has got the slot `idx` in the second loop. -/
structure Connects (cfg : PoolConfig.Valid) (attempts : ℕ → Bool) (c idx : ℕ)
    (st st' : ConnectionPool) : Prop where
  borrowing : st'.calls c = .borrowing idx
  used : (st'.slots idx).status = .used
  dead : ∀ i, FailsBefore cfg attempts st idx i → (st'.slots i).status = .dead
  others : ∀ i, i ≠ idx → ¬ FailsBefore cfg attempts st idx i → st'.slots i = st.slots i

theorem acquireSlot_inactive (hc : st.calls c = .idle) (hs : st.isShutdown = false)
    (hnone : ∀ i < cfg.1.capacity, (st.slots i).status ≠ .free) {idx : ℕ}
    (hfirst : FirstFrom cfg.1.capacity st.hintCursor
      (fun i => (st.slots i).status = .inactive ∧ attempts i = true) idx) :
    ∃ st', acquireSlot cfg attempts c st = Part.some st' ∧
      Connects cfg attempts c idx st st' := by
  obtain ⟨k, hk, rfl, ⟨hinactive, hconnects⟩, hbefore⟩ := hfirst
  have hfails : ∀ l < k, (st.slots (cell cfg.1.capacity st.hintCursor l)).status = .inactive →
      attempts (cell cfg.1.capacity st.hintCursor l) = false := fun l hl hin =>
    Bool.eq_false_iff.mpr fun hattempt => hbefore l hl ⟨hin, hattempt⟩
  have hunvisited := markDead_unvisited st st.hintCursor hk
  obtain ⟨st', hconnect, hlends⟩ := connects hk (by rw [hunvisited, hinactive]) hconnects
  have hreach := ((entersInactive hc hs hnone).trans
    (passesInactive c st.hintCursor hk.le hfails)).trans hconnect
  refine ⟨st', acquireSlot_eq_some hreach (by rw [hlends.borrowing]; rfl), hlends.borrowing,
    hlends.used, ?_, ?_⟩
  · rintro i ⟨hearlier, hin, -⟩
    obtain ⟨l, hl, rfl⟩ := (earlier_cell hk).mp hearlier
    have hne : cell cfg.1.capacity st.hintCursor l ≠ cell cfg.1.capacity st.hintCursor k :=
      fun hcell => hl.ne (cell_inj (hl.trans hk) hk hcell)
    rw [hlends.others _ hne]
    exact markDead_dead hk.le hl hin
  · intro i hne hother
    rw [hlends.others i hne]
    refine markDead_slots hk.le fun l hl hcell hin => hother ⟨?_, hin, ?_⟩
    · exact (earlier_cell hk).mpr ⟨l, hl, hcell⟩
    · rw [← hcell] at hin ⊢
      exact hfails l hl hin

/-- `st'` is `st` after both loops have found nothing for `c`. -/
structure Exhausts (cfg : PoolConfig.Valid) (c : ℕ) (st st' : ConnectionPool) : Prop where
  returned : st'.calls c = .returned
  dead : ∀ i < cfg.1.capacity, (st.slots i).status = .inactive → (st'.slots i).status = .dead
  others : ∀ i, ¬ (i < cfg.1.capacity ∧ (st.slots i).status = .inactive) →
    st'.slots i = st.slots i

theorem acquireSlot_none (hc : st.calls c = .idle) (hs : st.isShutdown = false)
    (hnone : ∀ i < cfg.1.capacity, (st.slots i).status ≠ .free)
    (hfails : ∀ i < cfg.1.capacity, (st.slots i).status = .inactive → attempts i = false) :
    ∃ st', acquireSlot cfg attempts c st = Part.some st' ∧ Exhausts cfg c st st' := by
  have hend : scanInactive cfg st.hintCursor cfg.1.capacity = .returned := if_neg (lt_irrefl _)
  have hscanned := passesInactive c st.hintCursor le_rfl
    fun k _ => hfails _ (cell_lt cfg.capacity_pos k)
  rw [hend] at hscanned
  have hreach := (entersInactive hc hs hnone).trans hscanned
  refine ⟨_, acquireSlot_eq_some hreach (by rw [calls_setCall]; rfl), calls_setCall _, ?_, ?_⟩
  · intro i hi hin
    obtain ⟨k, hk, rfl⟩ := exists_cell st.hintCursor hi
    exact markDead_dead le_rfl hk hin
  · intro i hother
    refine markDead_slots le_rfl fun k _ hcell hin => hother ⟨?_, hin⟩
    rw [← hcell]
    exact cell_lt cfg.capacity_pos k

theorem acquireSlot_returns_iff (hc : st.calls c = .idle) (hs : st.isShutdown = false) :
    (∃ st' idx, acquireSlot cfg attempts c st = Part.some st' ∧ st'.calls c = .borrowing idx) ↔
      (∃ i < cfg.1.capacity, (st.slots i).status = .free) ∨
        ∃ i < cfg.1.capacity, (st.slots i).status = .inactive ∧ attempts i = true := by
  by_cases hfree : ∃ i < cfg.1.capacity, (st.slots i).status = .free
  · obtain ⟨idx, hfirst⟩ := exists_firstFrom st.hintCursor hfree
    obtain ⟨st', hret, hlends⟩ := acquireSlot_free hc hs hfirst
    exact iff_of_true ⟨st', idx, hret, hlends.borrowing⟩ (.inl hfree)
  have hnone : ∀ i < cfg.1.capacity, (st.slots i).status ≠ .free :=
    fun i hi hfree' => hfree ⟨i, hi, hfree'⟩
  by_cases hconn : ∃ i < cfg.1.capacity, (st.slots i).status = .inactive ∧ attempts i = true
  · obtain ⟨idx, hfirst⟩ := exists_firstFrom st.hintCursor hconn
    obtain ⟨st', hret, hconnects⟩ := acquireSlot_inactive hc hs hnone hfirst
    exact iff_of_true ⟨st', idx, hret, hconnects.borrowing⟩ (.inr hconn)
  · obtain ⟨st', hret, hexhausts⟩ := acquireSlot_none hc hs hnone fun i hi hin =>
      Bool.eq_false_iff.mpr fun hattempt => hconn ⟨i, hi, hin, hattempt⟩
    refine iff_of_false ?_ (not_or.mpr ⟨hfree, hconn⟩)
    rintro ⟨st'', idx, hret', hborrowing⟩
    rw [hret, Part.some_inj] at hret'
    rw [← hret', hexhausts.returned] at hborrowing
    cases hborrowing

end Loops

/-- What `acquire_slot` does while nothing else runs, in any state of the pool
and whatever comes of the attempts to connect. It returns with a slot if and
only if there is a FREE slot or an INACTIVE one that connects: with the first
FREE slot from the hint on, or else with the first INACTIVE slot that connects,
the INACTIVE ones before it then being DEAD. On a pool that is shut down it
returns nothing. -/
theorem slotSearch_complete (cfg : PoolConfig.Valid) (attempts : ℕ → Bool) (c : ℕ)
    (st : ConnectionPool) (hc : st.calls c = .idle) :
    (st.isShutdown = true →
      acquireSlot cfg attempts c st = Part.some (st.setCall c .returned)) ∧
    (st.isShutdown = false →
      ((∃ st' idx, acquireSlot cfg attempts c st = Part.some st' ∧
          st'.calls c = .borrowing idx) ↔
        (∃ i < cfg.1.capacity, (st.slots i).status = .free) ∨
          ∃ i < cfg.1.capacity, (st.slots i).status = .inactive ∧ attempts i = true) ∧
      (∀ idx, FirstFrom cfg.1.capacity st.hintCursor (fun i => (st.slots i).status = .free) idx →
        ∃ st', acquireSlot cfg attempts c st = Part.some st' ∧ Lends c idx st st') ∧
      ((∀ i < cfg.1.capacity, (st.slots i).status ≠ .free) →
        (∀ idx, FirstFrom cfg.1.capacity st.hintCursor
            (fun i => (st.slots i).status = .inactive ∧ attempts i = true) idx →
          ∃ st', acquireSlot cfg attempts c st = Part.some st' ∧
            Connects cfg attempts c idx st st') ∧
        ((∀ i < cfg.1.capacity, (st.slots i).status = .inactive → attempts i = false) →
          ∃ st', acquireSlot cfg attempts c st = Part.some st' ∧ Exhausts cfg c st st'))) := by
  refine ⟨acquireSlot_shutdown hc, fun hs => ⟨acquireSlot_returns_iff hc hs, ?_, ?_⟩⟩
  · exact fun idx => acquireSlot_free hc hs
  · exact fun hnone =>
      ⟨fun idx => acquireSlot_inactive hc hs hnone, acquireSlot_none hc hs hnone⟩

/-- No slot has a connection, and the hint is beyond the capacity. -/
def hintBeyond : ConnectionPool := { empty with hintCursor := 5 }

theorem slotSearch_hintBeyond :
    ∃ st', acquireSlot minimal (fun i => i == 0) 0 hintBeyond = Part.some st' ∧
      st'.calls 0 = .borrowing 0 ∧ (st'.slots 0).status = .used ∧
      (st'.slots 1).status = .dead := by
  have hnone : ∀ i < minimal.1.capacity, (hintBeyond.slots i).status ≠ .free :=
    fun _ _ => by simp [hintBeyond, empty, SlotHolder.blank]
  obtain ⟨st', hret, hconnects⟩ :=
    (((slotSearch_complete minimal (fun i => i == 0) 0 hintBeyond rfl).2 rfl).2.2 hnone).1 0
      ⟨1, by decide, rfl, ⟨rfl, rfl⟩, by decide⟩
  refine ⟨st', hret, hconnects.borrowing, hconnects.used, hconnects.dead 1 ⟨?_, rfl, rfl⟩⟩
  exact ⟨1, by decide, rfl, 0, by decide, rfl⟩

/-- The pool lends a slot and is shut down, which marks the other slot; then it
gets the slot back. -/
def lentThenClosed : List Action :=
  [.call 0, .readHint 0, .compareExchange 0, .setHint 0, .stopJanitor, .exchange, .closeLoad,
    .closeLoad, .closeStore, .reset 0, .cleanup 0 true true, .release 0]

/-- After `shutdown()` the borrower of a slot has given it back: the slot is
FREE, and `acquire_slot` returns nothing. -/
theorem lentThenClosed_not_complete :
    ∃ st, run (step minimal) (start minimal fun _ => true) lentThenClosed = some st ∧
      st.calls 1 = .idle ∧ (st.slots 0).status = .free ∧
      ∀ attempts : ℕ → Bool, ¬ ((∃ st' idx,
          acquireSlot minimal attempts 1 st = Part.some st' ∧ st'.calls 1 = .borrowing idx) ↔
        (∃ i < minimal.1.capacity, (st.slots i).status = .free) ∨
          ∃ i < minimal.1.capacity, (st.slots i).status = .inactive ∧ attempts i = true) := by
  refine ⟨_, rfl, rfl, rfl, fun attempts hiff => ?_⟩
  obtain ⟨st', idx, hret, hborrowing⟩ := hiff.mpr (.inl ⟨0, by decide, rfl⟩)
  rw [acquireSlot_shutdown rfl rfl, Part.some_inj] at hret
  rw [← hret, calls_setCall] at hborrowing
  cases hborrowing

end ConnectionPool

end Demiplane.Postgres.LockFree

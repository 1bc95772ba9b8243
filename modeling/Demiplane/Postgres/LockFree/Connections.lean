import Mathlib.Data.Finset.Card
import Demiplane.Custody.Ledger
import Demiplane.Postgres.LockFree.Exclusivity
import Demiplane.Postgres.LockFree.SlotSearch

/-!
What becomes of a `PGconn`. It is opened by a call, by the janitor or by the
constructor, is handed to a slot, and is given to `PQfinish` when the slot gets
another one or is destroyed. A connection that is open is in one place only: in
a slot, or in the hands of the thread that has opened it and has not put it in
its slot yet.
-/

namespace Demiplane.Postgres.LockFree

open Custody Transition
open PoolConfig (minimal)
open ConnectionPool (slotIndex)

inductive Place where
  | slot (i : ℕ)
  | call (c : ℕ)
  | janitor
  deriving DecidableEq

/-- The connection a call has opened for its slot. -/
def Call.inHand : Call → Option Conn
  | .connected _ _ conn => some conn
  | _ => none

/-- The connection the janitor has opened for a slot. -/
def Janitor.inHand : Janitor → Option Conn
  | .replacing _ newConn => newConn
  | _ => none

/-- The slot a call means to connect. -/
def Call.opening (cfg : PoolConfig.Valid) : Call → Option ℕ
  | .creating start i | .failed start i | .connected start i _ => some (slotIndex cfg start i)
  | _ => none

/-- The slot at which the janitor stands. -/
def Janitor.index : Janitor → Option ℕ
  | .loading i | .checking i | .demoting i | .connecting i | .replacing i _ | .storing i _ => some i
  | .resting | .stopped => none

namespace ConnectionPool

variable {cfg : PoolConfig.Valid} {st st' : ConnectionPool} {a : Action}

def holds (st : ConnectionPool) : Place → Option Conn
  | .slot i => (st.slots i).conn
  | .call c => (st.calls c).inHand
  | .janitor => st.janitor.inHand

/-- The connection that a step gives to `PQfinish`. -/
def closes (cfg : PoolConfig.Valid) (st : ConnectionPool) (a : Action) : List Conn :=
  (st.replaces cfg a).elim [] fun i => (st.slots i).conn.toList

/-- `~ConnectionPool` destroys the holders, each of which closes its connection. -/
def destroy (cfg : PoolConfig.Valid) (st : ConnectionPool) : List Conn :=
  (List.range cfg.1.capacity).flatMap fun i => (st.slots i).conn.toList

/-! ### Where the connections are -/

theorem holds_setCall (st : ConnectionPool) (c : ℕ) (v : Call) :
    (st.setCall c v).holds = Function.update st.holds (.call c) v.inHand := by
  funext p
  cases p with
  | slot i => rfl
  | call r =>
      by_cases hr : r = c
      · subst hr
        simp [holds, setCall]
      · simp [holds, setCall, hr]
  | janitor => rfl

theorem holds_setSlot (st : ConnectionPool) (i : ℕ) (slot : SlotHolder) :
    (st.setSlot i slot).holds = Function.update st.holds (.slot i) slot.conn := by
  funext p
  cases p with
  | slot j =>
      by_cases hj : j = i
      · subst hj
        simp [holds, setSlot]
      · simp [holds, setSlot, hj]
  | call c => rfl
  | janitor => rfl

theorem holds_storeStatus (st : ConnectionPool) (i : ℕ) (status : SlotStatus) :
    (st.storeStatus i status).holds = st.holds := by
  rw [storeStatus, holds_setSlot]
  exact Function.update_eq_self (Place.slot i) st.holds

theorem holds_setJanitor (st : ConnectionPool) (j : Janitor) :
    { st with janitor := j }.holds = Function.update st.holds .janitor j.inHand := by
  funext p
  cases p <;> simp [holds]

/-- What a step does with connections: nothing, or it opens one and keeps it in
hand, or it closes what is in a slot and puts there what is in hand. -/
inductive Handles (cfg : PoolConfig.Valid) (st : ConnectionPool) (a : Action)
    (st' : ConnectionPool) : Prop
  | nothing (hholds : st'.holds = st.holds) (hfresh : st'.fresh = st.fresh)
      (hreplaces : st.replaces cfg a = none)
  | opens (p : Place) (hp : ∀ i, p ≠ .slot i) (hempty : st.holds p = none)
      (hholds : st'.holds = Function.update st.holds p (some st.fresh))
      (hfresh : st'.fresh = st.fresh + 1) (hreplaces : st.replaces cfg a = none)
  | puts (i : ℕ) (q : Place) (hq : q ≠ .slot i)
      (hholds : st'.holds =
        Function.update (Function.update st.holds q none) (.slot i) (st.holds q))
      (hfresh : st'.fresh = st.fresh) (hreplaces : st.replaces cfg a = some i)

namespace Handles

/-- A call goes on with nothing in hand that it did not have. -/
theorem of_call {base : ConnectionPool} {c : ℕ} {v : Call} (hholds : base.holds = st.holds)
    (hfresh : base.fresh = st.fresh) (hc : (st.calls c).inHand = v.inHand)
    (hreplaces : st.replaces cfg a = none) : Handles cfg st a (base.setCall c v) := by
  refine .nothing ?_ hfresh hreplaces
  rw [holds_setCall, ← hc, hholds]
  exact Function.update_eq_self (Place.call c) st.holds

/-- The janitor goes on with nothing in hand that it did not have. -/
theorem of_sweep (base : ConnectionPool) (j : Janitor) (hholds : base.holds = st.holds)
    (hfresh : base.fresh = st.fresh) (hj : st.janitor.inHand = j.inHand)
    (hreplaces : st.replaces cfg a = none) : Handles cfg st a { base with janitor := j } := by
  refine .nothing ?_ hfresh hreplaces
  rw [holds_setJanitor, ← hj, hholds]
  exact Function.update_eq_self Place.janitor st.holds

end Handles

theorem opening_scanFree (cfg : PoolConfig.Valid) (start i : ℕ) :
    (scanFree cfg start i).opening cfg = none := by
  rw [scanFree]
  split <;> rfl

theorem opening_scanInactive (cfg : PoolConfig.Valid) (start i : ℕ) :
    (scanInactive cfg start i).opening cfg = none := by
  rw [scanInactive]
  split <;> rfl

theorem inHand_of_opening {call : Call} (h : call.opening cfg = none) : call.inHand = none := by
  cases call with
  | connected => cases h
  | _ => rfl

theorem inHand_sweepFrom (cfg : PoolConfig.Valid) (i : ℕ) : (sweepFrom cfg i).inHand = none := by
  rw [sweepFrom]
  split <;> rfl

theorem handles_step (hstep : Step cfg st a st') : Handles cfg st a st' := by
  cases hstep with
  | called hc =>
      refine .of_call rfl rfl ?_ rfl
      rw [hc]
      split <;> rfl
  | readHint hc | passedFree hc hs =>
      refine .of_call rfl rfl ?_ rfl
      rw [hc, inHand_of_opening (opening_scanFree cfg _ _)]
      rfl
  | tookFree hc hs | tookInactive hc hs =>
      exact .of_call (holds_storeStatus st _ _) rfl (by rw [hc]; rfl) rfl
  | passedInactive hc hs =>
      refine .of_call rfl rfl ?_ rfl
      rw [hc, inHand_of_opening (opening_scanInactive cfg _ _)]
      rfl
  | @connected c start i hc =>
      refine .opens (.call c) (by simp) (by simp [holds, hc, Call.inHand]) ?_ rfl rfl
      rw [holds_setCall]
      rfl
  | failed hc => exact .of_call rfl rfl (by rw [hc]; rfl) rfl
  | storedDead hc =>
      refine .of_call (holds_storeStatus st _ _) rfl ?_ rfl
      rw [hc, inHand_of_opening (opening_scanInactive cfg _ _)]
      rfl
  | @replaced c start i conn hc =>
      have hhand : st.holds (.call c) = some conn := by simp [holds, hc, Call.inHand]
      refine .puts (slotIndex cfg start i) (.call c) (by simp) ?_ rfl (by simp [replaces, hc])
      rw [holds_setCall, holds_setSlot, hhand, Function.update_comm (by simp)]
      rfl
  | setHint hc => exact .of_call rfl rfl (by rw [hc]; rfl) rfl
  | @setCleanup c idx query hc =>
      refine .nothing ?_ rfl rfl
      rw [holds_setSlot]
      exact Function.update_eq_self (Place.slot idx) st.holds
  | reset hc => exact .of_call rfl rfl (by rw [hc]; rfl) rfl
  | @cleanedUp c idx healthy answered hc =>
      refine .of_call ?_ rfl (by rw [hc]; rfl) rfl
      rw [holds_setSlot, (runCleanupSql_fst _ healthy answered).2]
      exact Function.update_eq_self (Place.slot idx) st.holds
  | released hc => exact .of_call (holds_storeStatus st _ _) rfl (by rw [hc]; rfl) rfl
  | swept hj => exact .of_sweep st _ rfl rfl (by rw [hj, inHand_sweepFrom]; rfl) rfl
  | sawDead hj hs | sawFree hj hs => exact .of_sweep st _ rfl rfl (by rw [hj]; rfl) rfl
  | sawOther hj hs hs' | checkedGood hj hs | notDemoted hj hs =>
      exact .of_sweep st _ rfl rfl (by rw [hj, inHand_sweepFrom]; rfl) rfl
  | checkedBad hj hs => exact .of_sweep st _ rfl rfl (by rw [hj]; rfl) rfl
  | @demoted i hj hs =>
      exact .of_sweep (st.storeStatus i .dead) _ (holds_storeStatus st i .dead) rfl
        (by rw [hj]; rfl) rfl
  | @sweepConnected i hj =>
      refine .opens .janitor (by simp) (by simp [holds, hj, Janitor.inHand]) ?_ rfl rfl
      exact holds_setJanitor { st with fresh := st.fresh + 1 } _
  | sweepFailed hj => exact .of_sweep st _ rfl rfl (by rw [hj]; rfl) rfl
  | @sweepReplaced i newConn hj =>
      have hhand : st.holds .janitor = newConn := by simp [holds, hj, Janitor.inHand]
      refine .puts i .janitor (by simp) ?_ rfl (by simp [replaces, hj])
      rw [holds_setJanitor, holds_setSlot, hhand, Function.update_comm (by simp)]
      rfl
  | @sweepStored i status hj =>
      exact .of_sweep (st.storeStatus i status) _ (holds_storeStatus st i status) rfl
        (by rw [hj, inHand_sweepFrom]; rfl) rfl
  | stoppedJanitor hj =>
      refine .of_sweep st _ rfl rfl ?_ rfl
      rcases hj with hj | ⟨i, hj⟩ <;> rw [hj] <;> rfl
  | exchanged hj hs | exchangedAgain hj hs => exact .nothing rfl rfl rfl
  | closePassed hc hs | closeLoaded hc hs => exact .nothing rfl rfl rfl
  | @closeStored i hc => exact .nothing (holds_storeStatus st i .inactive) rfl rfl

/-! ### The books -/

/-- The connections that are open are those that have been opened and not
closed, and each of them is in one place. -/
structure Accounts (st : ConnectionPool) (closed : List Conn) : Prop where
  held : Held (fun k => k < st.fresh ∧ k ∉ closed) (In st.holds)
  nodup : closed.Nodup
  opened : ∀ k ∈ closed, k < st.fresh

theorem accounts_step {closed : List Conn} (h : Accounts st closed) (hstep : Handles cfg st a st') :
    Accounts st' (closed ++ closes cfg st a) := by
  cases hstep with
  | nothing hholds hfresh hreplaces =>
      simp only [closes, hreplaces, Option.elim_none, List.append_nil]
      exact ⟨by rw [hholds, hfresh]; exact h.held, h.nodup, by rw [hfresh]; exact h.opened⟩
  | opens p hp hempty hholds hfresh hreplaces =>
      have hnew : st.fresh ∉ closed := fun hk => Nat.lt_irrefl _ (h.opened _ hk)
      simp only [closes, hreplaces, Option.elim_none, List.append_nil]
      refine ⟨?_, h.nodup, fun k hk => by rw [hfresh]; exact Nat.lt_succ_of_lt (h.opened k hk)⟩
      rw [hholds, hfresh]
      refine h.held.put (fun hk => Nat.lt_irrefl _ hk.1) hempty fun k => ?_
      rw [Nat.lt_succ_iff_lt_or_eq, or_and_right]
      exact or_congr_right ⟨fun hk => hk.1, fun hk => ⟨hk, hk ▸ hnew⟩⟩
  | puts i q hq hholds hfresh hreplaces =>
      have hcloses : closes cfg st a = (st.holds (.slot i)).toList := by
        simp only [closes, hreplaces, Option.elim_some]
        rfl
      rw [hcloses]
      refine ⟨?_, ?_, ?_⟩
      · have hcleared : Held (fun k => k < st.fresh ∧ k ∉ closed ++ (st.holds (.slot i)).toList)
            (In (Function.update st.holds (.slot i) none)) :=
          h.held.discard (.slot i) fun k => by simp [and_assoc]
        have hcarried := hcleared.carry (p := .slot i) (q := q) hq.symm (by simp)
        rw [hholds, hfresh]
        simpa [hq, Function.update_comm hq.symm] using hcarried
      · cases hconn : st.holds (.slot i) with
        | none => simpa using h.nodup
        | some k =>
            rw [Option.toList_some, ← List.concat_eq_append]
            exact h.nodup.concat (h.held.booked hconn).2
      · intro k hk
        rw [hfresh]
        rcases List.mem_append.mp hk with hk | hk
        · exact h.opened k hk
        · exact (h.held.booked (p := .slot i) (Option.mem_toList.mp hk)).1

theorem accounts_construct {i : ℕ} (h : Accounts st []) (hi : (st.slots i).conn = none)
    (connects : Bool) : Accounts (st.construct i connects) [] := by
  refine ⟨?_, List.nodup_nil, by simp⟩
  cases connects with
  | false =>
      have hholds : (st.construct i false).holds = st.holds := holds_storeStatus st i .dead
      rw [hholds]
      exact h.held
  | true =>
      have hholds : (st.construct i true).holds =
          Function.update st.holds (.slot i) (some st.fresh) :=
        (holds_storeStatus _ i .free).trans (holds_setSlot st i _)
      rw [hholds]
      refine h.held.put (x := st.fresh) (by simp) hi fun k => ?_
      change k < st.fresh + 1 ∧ k ∉ [] ↔ _
      simpa using Nat.lt_succ_iff_lt_or_eq

theorem construct_slots_of_ne {i j : ℕ} (hj : j ≠ i) (connects : Bool) :
    (st.construct i connects).slots j = st.slots j := by
  cases connects <;> simp [construct, storeStatus, setSlot, hj]

/-- Slots that the constructor has not come to are empty. -/
theorem accounts_start (cfg : PoolConfig.Valid) (attempts : ℕ → Bool) :
    Accounts (start cfg attempts) [] ∧
      ∀ i, cfg.1.minConnections ≤ i → ((start cfg attempts).slots i).conn = none := by
  rw [start]
  induction cfg.1.minConnections with
  | zero =>
      refine ⟨⟨⟨fun {k p} hk => ?_, fun {k} hk => absurd hk.1 (Nat.not_lt_zero k),
        fun {k p q} hk => ?_⟩, List.nodup_nil, by simp⟩, fun _ _ => rfl⟩ <;>
      · cases p <;> cases hk
  | succ n ih =>
      rw [List.range_succ, List.foldl_append]
      refine ⟨accounts_construct ih.1 (ih.2 n le_rfl) _, fun i hi => ?_⟩
      rw [List.foldl_cons, List.foldl_nil, construct_slots_of_ne (Nat.ne_of_gt hi)]
      exact ih.2 i (Nat.le_of_succ_le hi)

theorem accounts_of_run {attempts : ℕ → Bool} {as : List Action}
    (h : run (step cfg) (start cfg attempts) as = some st) :
    Accounts st (trace (step cfg) (closes cfg) (start cfg attempts) as) :=
  trace_invariant (closes cfg) (accounts_start cfg attempts).1
    (fun _ _ _ _ hi hstep => accounts_step hi (handles_step (step_cases hstep))) h

/-! ### Slots that exist -/

/-- Nothing is ever put beyond the last slot. -/
structure Contained (cfg : PoolConfig.Valid) (st : ConnectionPool) : Prop where
  sweeping : ∀ i, st.janitor.index = some i → i < cfg.1.capacity
  outside : ∀ i, cfg.1.capacity ≤ i → (st.slots i).conn = none

theorem slotIndex_lt (cfg : PoolConfig.Valid) (start i : ℕ) :
    slotIndex cfg start i < cfg.1.capacity := by
  rw [slotIndex_eq_cell]
  exact Scan.cell_lt cfg.capacity_pos i

theorem index_sweepFrom {i j : ℕ} (h : (sweepFrom cfg i).index = some j) : j < cfg.1.capacity := by
  rw [sweepFrom] at h
  split at h
  · rename_i hi
    cases h
    exact hi
  · cases h

theorem Contained.replaces_lt (h : Contained cfg st) {i : ℕ} (hi : st.replaces cfg a = some i) :
    i < cfg.1.capacity := by
  cases a with
  | replaceConn c =>
      simp only [replaces] at hi
      split at hi
      · cases hi
        exact slotIndex_lt cfg _ _
      · cases hi
  | sweepReplace =>
      simp only [replaces] at hi
      split at hi
      · rename_i hj
        cases hi
        exact h.sweeping i (by rw [hj]; rfl)
      · cases hi
  | _ => cases hi

/-- The janitor stays at the slot where it is or goes on within the slots. -/
theorem index_step (hstep : Step cfg st a st') {i : ℕ} (hi : st'.janitor.index = some i) :
    st.janitor.index = some i ∨ i < cfg.1.capacity := by
  cases hstep with
  | swept hj => exact .inr (index_sweepFrom hi)
  | sawOther hj hs hs' | checkedGood hj hs | notDemoted hj hs | sweepStored hj =>
      exact .inr (index_sweepFrom hi)
  | sawDead hj hs | sawFree hj hs | checkedBad hj hs | demoted hj hs | sweepConnected hj
  | sweepFailed hj | sweepReplaced hj =>
      rw [hj]
      exact .inl hi
  | stoppedJanitor hj => cases hi
  | _ => exact .inl hi

theorem contained_step (h : Contained cfg st) (hstep : Step cfg st a st') : Contained cfg st' := by
  refine ⟨fun i hi => (index_step hstep hi).elim (h.sweeping i) id, fun i hi => ?_⟩
  have hempty : st.holds (.slot i) = none := h.outside i hi
  change st'.holds (.slot i) = none
  cases handles_step hstep with
  | nothing hholds hfresh hreplaces => rw [hholds, hempty]
  | opens p hp hnone hholds hfresh hreplaces =>
      rw [hholds, Function.update_of_ne (hp i).symm, hempty]
  | puts j q hq hholds hfresh hreplaces =>
      have hne : Place.slot i ≠ .slot j := by
        rintro ⟨⟩
        exact Nat.not_lt_of_le hi (h.replaces_lt hreplaces)
      rw [hholds, Function.update_of_ne hne, Function.update_apply, hempty, ite_self]

theorem contained_of_run {attempts : ℕ → Bool} {as : List Action}
    (h : run (step cfg) (start cfg attempts) as = some st) : Contained cfg st := by
  refine run_invariant (I := Contained cfg) ⟨fun i hi => ?_, fun i hi => ?_⟩
    (fun _ _ _ hi hstep => contained_step hi (step_cases hstep)) h
  · simp [(untouched_start cfg attempts).janitor, Janitor.index] at hi
  · exact (accounts_start cfg attempts).2 i (cfg.minConnections_le.trans hi)

/-! ### From the constructor to the destructor -/

/-- A slot whose connection is exchanged belongs to the thread that exchanges
it, and to no other. -/
def ReplacesOwn (cfg : PoolConfig.Valid) (st : ConnectionPool) : Action → Prop
  | .replaceConn c => ∀ i ∈ st.replaces cfg (.replaceConn c),
      (∀ r, (st.calls r).slot cfg = some i → r = c) ∧ st.janitor.slot ≠ some i
  | .sweepReplace => ∀ i ∈ st.replaces cfg .sweepReplace, ∀ r, (st.calls r).slot cfg ≠ some i
  | _ => True

theorem Exclusive.replacesOwn (h : Exclusive cfg st) (a : Action) : ReplacesOwn cfg st a := by
  cases a with
  | replaceConn c =>
      intro i hi
      have hslot : (st.calls c).slot cfg = some i := by
        simp only [replaces] at hi
        split at hi
        · rename_i hc
          rw [hc]
          exact hi
        · cases hi
      refine ⟨fun r hr => h.unique hr hslot, fun hj => ?_⟩
      have hdead := h.dead hj
      rw [h.used hslot] at hdead
      cases hdead
  | sweepReplace =>
      intro i hi
      have hslot : st.janitor.slot = some i := by
        simp only [replaces] at hi
        split at hi
        · rename_i hj
          rw [hj]
          exact hi
        · cases hi
      exact h.unclaimed (by simp [h.dead hslot])
  | _ => trivial

theorem mem_destroy (h : Contained cfg st) {k : Conn} :
    k ∈ st.destroy cfg ↔ ∃ i, st.holds (.slot i) = some k := by
  simp only [destroy, List.mem_flatMap, List.mem_range, Option.mem_toList]
  constructor
  · rintro ⟨i, -, hi⟩
    exact ⟨i, hi⟩
  · rintro ⟨i, hi⟩
    refine ⟨i, ?_, hi⟩
    by_contra hle
    rw [holds, h.outside i (Nat.le_of_not_lt hle)] at hi
    cases hi

theorem Accounts.nodup_destroy {closed : List Conn} (h : Accounts st closed)
    (cfg : PoolConfig.Valid) : (st.destroy cfg).Nodup := by
  refine List.nodup_flatMap.mpr ⟨fun i _ => by cases (st.slots i).conn <;> simp, ?_⟩
  refine List.nodup_range.pairwise_of_forall_ne fun i _ j _ hne => ?_
  intro k hi hj
  have hplace : Place.slot i = .slot j :=
    h.held.unique (Option.mem_toList.mp hi) (Option.mem_toList.mp hj)
  exact hne (Place.slot.inj hplace)

/-- In every interleaving in which `shutdown()` overwrites no USED status, every
connection that is ever opened is closed exactly once, by the time the pool is
destroyed, whether slots are lent by then or not; and no thread exchanges the
connection of a slot that is not its own. -/
theorem connections_closed_once (cfg : PoolConfig.Valid) (attempts : ℕ → Bool) (as : List Action)
    (st : ConnectionPool) (h : run (step cfg) (start cfg attempts) as = some st)
    (hg : Guarded (step cfg) StoresUnclaimed (start cfg attempts) as)
    (hcalls : ∀ c, (st.calls c).inHand = none) (hj : st.janitor.inHand = none) :
    (trace (step cfg) (closes cfg) (start cfg attempts) as ++ st.destroy cfg).Perm
        (List.range st.fresh) ∧
      Guarded (step cfg) (ReplacesOwn cfg) (start cfg attempts) as := by
  have hacc := accounts_of_run h
  have hmem {k : Conn} : k ∈ st.destroy cfg ↔ ∃ i, st.holds (.slot i) = some k :=
    mem_destroy (contained_of_run h)
  refine ⟨(List.perm_ext_iff_of_nodup ?_ List.nodup_range).mpr fun k => ?_, ?_⟩
  · refine List.nodup_append'.mpr ⟨hacc.nodup, hacc.nodup_destroy cfg, fun k hk hk' => ?_⟩
    obtain ⟨i, hi⟩ := hmem.mp hk'
    exact (hacc.held.booked hi).2 hk
  · rw [List.mem_append, hmem, List.mem_range]
    constructor
    · rintro (hk | ⟨i, hi⟩)
      · exact hacc.opened k hk
      · exact (hacc.held.booked hi).1
    · intro hk
      by_contra hnot
      rw [not_or] at hnot
      -- nobody is left to have it in hand
      obtain ⟨p, hp⟩ := hacc.held.found ⟨hk, hnot.1⟩
      cases p with
      | slot i => exact hnot.2 ⟨i, hp⟩
      | call c => exact Option.some_ne_none k (hp.symm.trans (hcalls c))
      | janitor => exact Option.some_ne_none k (hp.symm.trans hj)
  · exact hg.mono ((untouched_start cfg attempts).exclusive cfg)
      (fun _ _ _ hi hga hstep => exclusive_step hi hga (step_cases hstep))
      fun _ a hi _ => hi.replacesOwn a

/-- The janitor replaces the connection that the constructor has opened, a call
opens one for the other slot, and the pool is shut down while that is lent. -/
def replacedAndClosed : List Action :=
  [.sweep, .sweepLoad, .sweepCheck false, .sweepExchange, .call 0, .readHint 0, .compareExchange 0,
    .compareExchange 0, .compareExchange 0, .compareExchange 0, .sweepConnect true,
    .createConnection 0 true, .sweepReplace, .replaceConn 0, .setHint 0, .sweepStore,
    .stopJanitor, .exchange, .closeLoad, .closeStore, .closeLoad]

theorem connections_closed_replacedAndClosed :
    ∃ st, run (step minimal) (start minimal fun _ => true) replacedAndClosed = some st ∧
      st.calls 0 = .borrowing 1 ∧
      trace (step minimal) (closes minimal) (start minimal fun _ => true) replacedAndClosed = [0] ∧
      st.destroy minimal = [1, 2] ∧ [0, 1, 2].Perm (List.range st.fresh) := by
  have hg : Guarded (step minimal) StoresUnclaimed (start minimal fun _ => true)
      replacedAndClosed := by
    iterate 19 refine (guarded_cons rfl).mpr ⟨trivial, ?_⟩
    refine (guarded_cons rfl).mpr ⟨fun i hi => ?_, ?_⟩
    · cases hi
      decide
    · exact (guarded_cons rfl).mpr ⟨trivial, guarded_nil _ _⟩
  refine ⟨_, rfl, rfl, rfl, rfl, ?_⟩
  refine (connections_closed_once minimal _ replacedAndClosed _ rfl hg (fun c => ?_) rfl).1
  cases c <;> rfl

/-! ### How many connections are open -/

/-- As long as the pool is not shut down, an INACTIVE slot has no connection,
nor has one that a call means to connect. -/
structure Bare (cfg : PoolConfig.Valid) (st : ConnectionPool) : Prop where
  inactive : ∀ i, (st.slots i).status = .inactive → (st.slots i).conn = none
  opening : ∀ c i, (st.calls c).opening cfg = some i → (st.slots i).conn = none
  given : ∀ i, st.janitor = .storing i .inactive → (st.slots i).conn = none

theorem slot_of_opening {call : Call} {i : ℕ} (h : call.opening cfg = some i) :
    call.slot cfg = some i := by
  cases call with
  | creating | failed | connected => exact h
  | _ => cases h

namespace Bare

/-- A call goes on; if it means to connect a slot, that slot is empty. -/
theorem goes (h : Bare cfg st) {c : ℕ} {v : Call}
    (hv : ∀ i, v.opening cfg = some i → (st.slots i).conn = none) : Bare cfg (st.setCall c v) := by
  refine ⟨h.inactive, fun r i hr => ?_, h.given⟩
  by_cases hrc : r = c
  · subst hrc
    exact hv i (by simpa [setCall] using hr)
  · exact h.opening r i (by simpa [setCall, hrc] using hr)

theorem leaves (h : Bare cfg st) {c : ℕ} {v : Call} (hv : v.opening cfg = none) :
    Bare cfg (st.setCall c v) :=
  h.goes fun i hi => by simp [hv] at hi

/-- A slot changes, but not its connection. -/
theorem touch (h : Bare cfg st) {i : ℕ} {slot : SlotHolder} (hconn : slot.conn = (st.slots i).conn)
    (hs : slot.status = .inactive → (st.slots i).conn = none) : Bare cfg (st.setSlot i slot) := by
  have hsame (j : ℕ) : ((st.setSlot i slot).slots j).conn = (st.slots j).conn := by
    by_cases hj : j = i
    · subst hj
      simpa [setSlot] using hconn
    · simp [setSlot, hj]
  refine ⟨fun j hj => ?_, fun c j hc => (hsame j).trans (h.opening c j hc),
    fun j hj => (hsame j).trans (h.given j hj)⟩
  rw [hsame j]
  by_cases hji : j = i
  · subst hji
    exact hs (by simpa [setSlot] using hj)
  · exact h.inactive j (by simpa [setSlot, hji] using hj)

theorem store (h : Bare cfg st) {i : ℕ} {s : SlotStatus}
    (hs : s = .inactive → (st.slots i).conn = none) : Bare cfg (st.storeStatus i s) :=
  h.touch rfl hs

theorem sweeps (h : Bare cfg st) {j : Janitor}
    (hj : ∀ i, j = .storing i .inactive → (st.slots i).conn = none) :
    Bare cfg { st with janitor := j } :=
  ⟨h.inactive, h.opening, hj⟩

/-- The connection of a slot changes that is not INACTIVE and that no call means
to connect. -/
theorem replace (h : Bare cfg st) {i : ℕ} {newConn : Option Conn}
    (hs : (st.slots i).status ≠ .inactive) (hno : ∀ c, (st.calls c).opening cfg ≠ some i)
    (hj : ∀ s, st.janitor ≠ .storing i s) :
    Bare cfg (st.setSlot i ((st.slots i).replaceConn newConn)) := by
  refine ⟨fun j hj => ?_, fun c j hc => ?_, fun j hgiven => ?_⟩
  · by_cases hji : j = i
    · subst hji
      simp only [setSlot, Function.update_self] at hj
      exact absurd hj hs
    · simp only [setSlot, Function.update_of_ne hji] at hj ⊢
      exact h.inactive j hj
  · have hji : j ≠ i := by
      rintro rfl
      exact hno c hc
    simp only [setSlot, Function.update_of_ne hji]
    exact h.opening c j hc
  · have hji : j ≠ i := by
      rintro rfl
      exact hj _ hgiven
    simp only [setSlot, Function.update_of_ne hji]
    exact h.given j hgiven

/-- The janitor goes on to the next slot. -/
theorem passes (h : Bare cfg st) (i : ℕ) : Bare cfg { st with janitor := sweepFrom cfg i } :=
  h.sweeps fun j hj => absurd hj ((slot_sweepFrom cfg i).2 j .inactive)

end Bare

theorem bare_step (h : Bare cfg st) (hex : Exclusive cfg st) (hopen : st.closing = .idle)
    (hstep : Step cfg st a st') : Bare cfg st' := by
  cases hstep with
  | called hc =>
      refine h.leaves ?_
      split <;> rfl
  | readHint hc | passedFree hc hs => exact h.leaves (opening_scanFree cfg _ _)
  | passedInactive hc hs => exact h.leaves (opening_scanInactive cfg _ _)
  | tookFree hc hs => exact (h.store (by simp)).leaves rfl
  | @tookInactive c start i hc hs =>
      refine (h.store (by simp)).goes fun j hj => ?_
      cases hj
      simpa [storeStatus, setSlot] using h.inactive _ hs
  | connected hc =>
      exact (Bare.mk h.inactive h.opening h.given : Bare cfg { st with fresh := st.fresh + 1 }).goes
        fun i hi => h.opening _ i (by rw [hc]; exact hi)
  | failed hc => exact h.goes fun i hi => h.opening _ i (by rw [hc]; exact hi)
  | storedDead hc => exact (h.store (by simp)).leaves (opening_scanInactive cfg _ _)
  | @replaced c start i conn hc =>
      have hslot : (st.calls c).slot cfg = some (slotIndex cfg start i) := by rw [hc]; rfl
      have hused := hex.used hslot
      have hleft : Bare cfg (st.setCall c (.taken (slotIndex cfg start i))) := h.leaves rfl
      refine hleft.replace (by simp [hused]) (fun r hr => ?_) fun s hj => ?_
      · by_cases hrc : r = c
        · subst hrc
          simp [Call.opening] at hr
        · have hr' : (st.calls r).opening cfg = some (slotIndex cfg start i) := by
            simpa [setCall, hrc] using hr
          exact hrc (hex.unique (slot_of_opening hr') hslot)
      · have hdead := hex.dead (i := slotIndex cfg start i)
          (show st.janitor.slot = _ by rw [show st.janitor = _ from hj]; rfl)
        rw [hused] at hdead
        cases hdead
  | @setHint c idx hc =>
      have hleft : Bare cfg (st.setCall c (.borrowing idx)) := h.leaves rfl
      exact ⟨hleft.inactive, hleft.opening, hleft.given⟩
  | setCleanup hc => exact h.touch rfl (h.inactive _)
  | reset hc => exact h.leaves rfl
  | @cleanedUp c idx healthy answered hc =>
      have hfst := runCleanupSql_fst (st.slots idx) healthy answered
      exact (h.touch hfst.2 fun hs => h.inactive idx (hfst.1.symm.trans hs)).leaves rfl
  | @released c idx ok hc => exact (h.store (by cases ok <;> simp)).leaves rfl
  | swept hj => exact h.passes 0
  | sawDead hj hs | sawFree hj hs => exact h.sweeps (by simp)
  | sawOther hj hs hs' | checkedGood hj hs | notDemoted hj hs => exact h.passes _
  | checkedBad hj hs => exact h.sweeps (by simp)
  | @demoted i hj hs => exact (h.store (by simp)).sweeps (by simp)
  | @sweepConnected i hj => exact ⟨h.inactive, h.opening, by simp⟩
  | sweepFailed hj => exact h.sweeps (by simp)
  | @sweepReplaced i newConn hj =>
      have hdead := hex.dead (i := i) (by rw [hj]; rfl)
      have hreplaced : Bare cfg (st.setSlot i ((st.slots i).replaceConn newConn)) :=
        h.replace (by simp [hdead])
          (fun c hc => by simp [hex.used (slot_of_opening hc)] at hdead) (by simp [hj])
      refine hreplaced.sweeps fun j hj => ?_
      cases newConn with
      | none =>
          cases hj
          simp [setSlot, SlotHolder.replaceConn]
      | some k => cases hj
  | @sweepStored i status hj =>
      have hstored : Bare cfg (st.storeStatus i status) :=
        h.store fun hs => h.given i (by rw [hj, hs])
      exact hstored.passes _
  | stoppedJanitor hj => exact h.sweeps (by simp)
  | exchanged hj hs => exact ⟨h.inactive, h.opening, h.given⟩
  | exchangedAgain hj hs => exact h
  | closePassed hc hs | closeLoaded hc hs | closeStored hc =>
      rw [hc] at hopen
      cases hopen

theorem bare_start (cfg : PoolConfig.Valid) (attempts : ℕ → Bool) :
    Bare cfg (start cfg attempts) := by
  have huntouched := untouched_start cfg attempts
  refine ⟨?_, fun c i hc => ?_, fun i hj => ?_⟩
  · rw [start]
    induction cfg.1.minConnections with
    | zero => exact fun _ _ => rfl
    | succ n ih =>
        intro i hi
        rw [List.range_succ, List.foldl_append, List.foldl_cons, List.foldl_nil] at hi ⊢
        by_cases hin : i = n
        · subst hin
          cases hattempt : attempts i <;>
            simp [hattempt, construct, storeStatus, setSlot] at hi
        · rw [construct_slots_of_ne hin] at hi ⊢
          exact ih i hi
  · simp [huntouched.calls c, Call.opening] at hc
  · simp [huntouched.janitor] at hj

/-- Before `shutdown()` every slot is as its status says. -/
theorem bare_of_run {attempts : ℕ → Bool} {as : List Action}
    (h : run (step cfg) (start cfg attempts) as = some st) (hs : st.isShutdown = false) :
    Exclusive cfg st ∧ Bare cfg st := by
  have huntouched := untouched_start cfg attempts
  suffices hinv : Flagged st ∧ (st.isShutdown = false → Exclusive cfg st ∧ Bare cfg st) from
    hinv.2 hs
  refine run_invariant
    (I := fun st => Flagged st ∧ (st.isShutdown = false → Exclusive cfg st ∧ Bare cfg st))
    ⟨fun _ => huntouched.closing, fun _ => ⟨huntouched.exclusive cfg, bare_start cfg attempts⟩⟩
    (fun st a st' hi hstep => ?_) h
  have hcases := step_cases hstep
  refine ⟨flagged_step hi.1 hcases, fun hs' => ?_⟩
  have hopen := open_of_step hcases hs'
  have hidle := hi.1 hopen
  obtain ⟨hex, hbare⟩ := hi.2 hopen
  have hunclaimed : StoresUnclaimed st a := by
    cases a with
    | closeStore =>
        intro i hc
        rw [hc] at hidle
        cases hidle
    | _ => trivial
  exact ⟨exclusive_step hex hunclaimed hcases, bare_step hbare hex hidle hcases⟩

/-- The connections that have been opened and not closed. -/
def stillOpen (st : ConnectionPool) (closed : List Conn) : Finset Conn :=
  (Finset.range st.fresh).filter (· ∉ closed)

/-- The slot a connection is in or is meant for; what the janitor has in hand
counts for a slot more. -/
def home (cfg : PoolConfig.Valid) (st : ConnectionPool) : Place → ℕ
  | .slot i => i
  | .call c => ((st.calls c).slot cfg).getD 0
  | .janitor => cfg.1.capacity

theorem home_call (cfg : PoolConfig.Valid) {c : ℕ} {k : Conn} (h : st.holds (.call c) = some k) :
    (st.calls c).opening cfg = some (st.home cfg (.call c)) := by
  simp only [holds, home] at h ⊢
  cases hc : st.calls c with
  | connected start i conn => rfl
  | _ => simp [hc, Call.inHand] at h

theorem home_lt (h : Contained cfg st) {p : Place} {k : Conn} (hp : st.holds p = some k)
    (hj : p ≠ .janitor) : st.home cfg p < cfg.1.capacity := by
  cases p with
  | slot i =>
      by_contra hle
      rw [holds, h.outside i (Nat.le_of_not_lt hle)] at hp
      cases hp
  | call c =>
      simp only [holds] at hp
      cases hc : st.calls c with
      | connected start i conn =>
          simp only [home, hc, Call.slot, Option.getD_some]
          exact slotIndex_lt cfg start i
      | _ => simp [hc, Call.inHand] at hp
  | janitor => exact absurd rfl hj

/-- Two places that hold connections have different homes. -/
theorem home_inj (hcont : Contained cfg st) (hex : Exclusive cfg st) (hbare : Bare cfg st)
    {p q : Place} {k l : Conn} (hp : st.holds p = some k) (hq : st.holds q = some l)
    (h : st.home cfg p = st.home cfg q) : p = q := by
  have hlt {r : Place} {m : Conn} (hr : st.holds r = some m) (hrj : r ≠ .janitor) :=
    home_lt hcont hr hrj
  -- the slot that a call means to connect is empty
  have hempty {c i : ℕ} {m n : Conn} (hc : st.holds (.call c) = some m)
      (hi : st.holds (.slot i) = some n) : st.home cfg (.call c) ≠ i := by
    rintro rfl
    have hnone := hbare.opening c _ (home_call cfg hc)
    rw [holds, hnone] at hi
    cases hi
  cases p with
  | slot i =>
      cases q with
      | slot j => exact congrArg Place.slot h
      | call c => exact absurd h.symm (hempty hq hp)
      | janitor => exact absurd h (Nat.ne_of_lt (hlt hp (by simp)))
  | call c =>
      cases q with
      | slot j => exact absurd h (hempty hp hq)
      | call r =>
          have hc := slot_of_opening (home_call cfg hp)
          have hr := slot_of_opening (home_call cfg hq)
          rw [← h] at hr
          exact congrArg Place.call (hex.unique hc hr)
      | janitor => exact absurd h (Nat.ne_of_lt (hlt hp (by simp)))
  | janitor =>
      cases q with
      | slot j | call r => exact absurd h.symm (Nat.ne_of_lt (hlt hq (by simp)))
      | janitor => rfl

theorem card_stillOpen_le {closed : List Conn} (hacc : Accounts st closed)
    (hcont : Contained cfg st) (hex : Exclusive cfg st) (hbare : Bare cfg st) :
    (st.stillOpen closed).card ≤ cfg.1.capacity + st.janitor.inHand.toList.length := by
  have hfound : ∀ k, k ∈ st.stillOpen closed → ∃ p, st.holds p = some k := fun k hk => by
    rw [stillOpen, Finset.mem_filter, Finset.mem_range] at hk
    exact hacc.held.found hk
  have hnonempty : Nonempty Place := ⟨.janitor⟩
  choose! place hplace using hfound
  rw [← Finset.card_range (cfg.1.capacity + st.janitor.inHand.toList.length)]
  refine Finset.card_le_card_of_injOn (fun k => st.home cfg (place k)) (fun k hk => ?_)
    fun k hk l hl hkl => ?_
  · have hp := hplace k hk
    rw [Finset.coe_range, Set.mem_Iio]
    by_cases hj : place k = .janitor
    · rw [hj] at hp
      have hhand : st.janitor.inHand = some k := hp
      simp [hj, home, hhand]
    · exact Nat.lt_add_right _ (home_lt hcont hp hj)
  · have hsame := home_inj hcont hex hbare (hplace k hk) (hplace l hl) hkl
    have hl' := hplace l hl
    rw [← hsame, hplace k hk] at hl'
    exact Option.some.inj hl'

/-- In every interleaving without `shutdown()`, there are never more connections
open than the pool has slots, but for one that the janitor has opened for a slot
whose connection it has not closed yet; and every borrower has a connection
that is open and that nobody else has. -/
theorem open_connections_bounded (cfg : PoolConfig.Valid) (attempts : ℕ → Bool) (as : List Action)
    (st : ConnectionPool) (h : run (step cfg) (start cfg attempts) as = some st)
    (hs : st.isShutdown = false) :
    let opened := st.stillOpen (trace (step cfg) (closes cfg) (start cfg attempts) as)
    opened.card ≤ cfg.1.capacity + 1 ∧
      (st.janitor.inHand = none → opened.card ≤ cfg.1.capacity) ∧
      ∀ c i, st.calls c = .borrowing i → ∃ k ∈ opened, (st.slots i).conn = some k ∧
        ∀ p, st.holds p = some k → p = .slot i := by
  have hacc := accounts_of_run h
  obtain ⟨hex, hbare⟩ := bare_of_run h hs
  have hcard := card_stillOpen_le hacc (contained_of_run h) hex hbare
  refine ⟨hcard.trans ?_, fun hj => by simpa [hj] using hcard, fun c i hc => ?_⟩
  · cases st.janitor.inHand <;> simp
  · have hconn := hex.relied (c := c) (i := i) (by rw [hc]; rfl)
    obtain ⟨k, hk⟩ := Option.ne_none_iff_exists'.mp hconn
    have hheld : In st.holds k (.slot i) := hk
    refine ⟨k, ?_, hk, fun p hp => hacc.held.unique hp hheld⟩
    rw [stillOpen, Finset.mem_filter, Finset.mem_range]
    exact hacc.held.booked hheld

/-- Both slots are connected, one of them lent, when the janitor has opened a
connection for the other. -/
def thirdConnection : List Action :=
  [.call 0, .readHint 0, .compareExchange 0, .setHint 0, .call 1, .readHint 1, .compareExchange 1,
    .compareExchange 1, .compareExchange 1, .createConnection 1 true, .replaceConn 1, .setHint 1,
    .reset 1, .cleanup 1 false true, .release 1, .sweep, .sweepLoad, .sweepLoad,
    .sweepConnect true]

theorem open_connections_thirdConnection :
    ∃ st, run (step minimal) (start minimal fun _ => true) thirdConnection = some st ∧
      st.calls 0 = .borrowing 0 ∧
      (st.stillOpen (trace (step minimal) (closes minimal) (start minimal fun _ => true)
        thirdConnection)).card = minimal.1.capacity + 1 := by
  have hbound := open_connections_bounded minimal (fun _ => true) thirdConnection _ rfl rfl
  exact ⟨_, rfl, rfl, Nat.le_antisymm hbound.1 (by decide)⟩

end ConnectionPool

end Demiplane.Postgres.LockFree

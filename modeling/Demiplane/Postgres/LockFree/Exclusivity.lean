import Demiplane.Postgres.LockFree.Steps

/-!
Who may touch a slot. The status byte says it: a USED slot belongs to the call
that turned it to USED, until the call stores another status; a DEAD slot
belongs to the janitor; FREE and INACTIVE slots belong to nobody and are taken
by compare-exchange only. The one store that does not come from an owner is
that of `shutdown()`, which overwrites a status it has loaded before.
-/

namespace Demiplane.Postgres.LockFree

open Transition
open PoolConfig (minimal)
open ConnectionPool (slotIndex)

/-- The slot a call owns. -/
def Call.slot (cfg : PoolConfig.Valid) : Call → Option ℕ
  | .creating start i | .failed start i | .connected start i _ => some (slotIndex cfg start i)
  | .taken idx | .borrowing idx | .resetting idx | .cleaned idx _ => some idx
  | .idle | .entered | .scanningFree _ _ | .scanningInactive _ _ | .returned => none

/-- The slot whose connection a call lends, or has found good for the next
borrower. -/
def Call.relies : Call → Option ℕ
  | .taken idx | .borrowing idx | .cleaned idx true => some idx
  | _ => none

theorem Call.slot_of_relies (cfg : PoolConfig.Valid) {call : Call} {i : ℕ}
    (h : call.relies = some i) : call.slot cfg = some i := by
  cases call with
  | taken idx | borrowing idx => exact h
  | cleaned idx ok =>
      cases ok with
      | true => exact h
      | false => cases h
  | _ => cases h

/-- The slot the janitor owns. -/
def Janitor.slot : Janitor → Option ℕ
  | .connecting i | .replacing i _ | .storing i _ => some i
  | .resting | .loading _ | .checking _ | .demoting _ | .stopped => none

namespace ConnectionPool

/-- Statuses say who owns what, and where a connection is promised there is
one. -/
structure Exclusive (cfg : PoolConfig.Valid) (st : ConnectionPool) : Prop where
  used : ∀ {c i}, (st.calls c).slot cfg = some i → (st.slots i).status = .used
  unique : ∀ {c c' i}, (st.calls c).slot cfg = some i → (st.calls c').slot cfg = some i → c = c'
  dead : ∀ {i}, st.janitor.slot = some i → (st.slots i).status = .dead
  free : ∀ {i}, (st.slots i).status = .free → (st.slots i).conn ≠ none
  relied : ∀ {c i}, (st.calls c).relies = some i → (st.slots i).conn ≠ none
  published : ∀ {i}, st.janitor = .storing i .free → (st.slots i).conn ≠ none
  stopped : st.closing ≠ .idle → st.janitor = .stopped

namespace Exclusive

variable {cfg : PoolConfig.Valid} {st : ConnectionPool} {c i : ℕ}

theorem unclaimed (h : Exclusive cfg st) (hs : (st.slots i).status ≠ .used) (c : ℕ) :
    (st.calls c).slot cfg ≠ some i :=
  fun hc => hs (h.used hc)

/-- A call goes on, owning no slot that it did not own. -/
theorem goes (h : Exclusive cfg st) {v : Call}
    (hslot : ∀ i, v.slot cfg = some i → (st.calls c).slot cfg = some i)
    (hrelies : ∀ i, v.relies = some i → (st.slots i).conn ≠ none) :
    Exclusive cfg (st.setCall c v) := by
  have hback {r j : ℕ} (hr : ((st.setCall c v).calls r).slot cfg = some j) :
      (st.calls r).slot cfg = some j := by
    by_cases hrc : r = c
    · subst hrc
      exact hslot j (by simpa [setCall] using hr)
    · simpa [setCall, hrc] using hr
  refine ⟨fun hr => h.used (hback hr), fun hr hr' => h.unique (hback hr) (hback hr'), h.dead,
    h.free, fun {r j} hr => ?_, h.published, h.stopped⟩
  by_cases hrc : r = c
  · subst hrc
    exact hrelies j (by simpa [setCall] using hr)
  · exact h.relied (c := r) (by simpa [setCall, hrc] using hr)

/-- A call gets a slot that is USED and that no call owns. -/
theorem claim (h : Exclusive cfg st) {v : Call} (hslot : v.slot cfg = some i)
    (hs : (st.slots i).status = .used) (hno : ∀ r, (st.calls r).slot cfg ≠ some i)
    (hrelies : ∀ j, v.relies = some j → (st.slots j).conn ≠ none) :
    Exclusive cfg (st.setCall c v) := by
  have hself : ((st.setCall c v).calls c).slot cfg = some i := by simpa [setCall] using hslot
  have hback {r j : ℕ} (hrc : r ≠ c) (hr : ((st.setCall c v).calls r).slot cfg = some j) :
      (st.calls r).slot cfg = some j := by simpa [setCall, hrc] using hr
  refine ⟨fun {r j} hr => ?_, fun {r r' j} hr hr' => ?_, h.dead, h.free, fun {r j} hr => ?_,
    h.published, h.stopped⟩
  · by_cases hrc : r = c
    · subst hrc
      obtain rfl := Option.some.inj (hself.symm.trans hr)
      exact hs
    · exact h.used (hback hrc hr)
  · by_cases hrc : r = c <;> by_cases hrc' : r' = c
    · rw [hrc, hrc']
    · subst hrc
      obtain rfl := Option.some.inj (hself.symm.trans hr)
      exact absurd (hback hrc' hr') (hno r')
    · subst hrc'
      obtain rfl := Option.some.inj (hself.symm.trans hr')
      exact absurd (hback hrc hr) (hno r)
    · exact h.unique (hback hrc hr) (hback hrc' hr')
  · by_cases hrc : r = c
    · subst hrc
      exact hrelies j (by simpa [setCall] using hr)
    · exact h.relied (c := r) (by simpa [setCall, hrc] using hr)

/-- A slot changes, but not its status, and keeps a connection where one is
promised. -/
theorem touch (h : Exclusive cfg st) {slot : SlotHolder}
    (hstatus : slot.status = (st.slots i).status)
    (hconn : (st.slots i).conn ≠ none → slot.conn ≠ none) : Exclusive cfg (st.setSlot i slot) := by
  have hs (j : ℕ) : ((st.setSlot i slot).slots j).status = (st.slots j).status := by
    by_cases hji : j = i
    · subst hji
      simpa [setSlot] using hstatus
    · simp [setSlot, hji]
  have hc {j : ℕ} (hj : (st.slots j).conn ≠ none) : ((st.setSlot i slot).slots j).conn ≠ none := by
    by_cases hji : j = i
    · subst hji
      simpa [setSlot] using hconn hj
    · simpa [setSlot, hji] using hj
  exact ⟨fun hr => (hs _).trans (h.used hr), h.unique, fun hj => (hs _).trans (h.dead hj),
    fun hj => hc (h.free ((hs _).symm.trans hj)), fun hr => hc (h.relied hr),
    fun hj => hc (h.published hj), h.stopped⟩

/-- The status of a slot that no call owns is overwritten. -/
theorem store (h : Exclusive cfg st) {s : SlotStatus}
    (hno : ∀ r, (st.calls r).slot cfg ≠ some i) (hjanitor : st.janitor.slot = some i → s = .dead)
    (hconn : s = .free → (st.slots i).conn ≠ none) : Exclusive cfg (st.storeStatus i s) := by
  have hself : ((st.storeStatus i s).slots i).status = s := by simp [storeStatus, setSlot]
  have hother {j : ℕ} (hji : j ≠ i) :
      ((st.storeStatus i s).slots j).status = (st.slots j).status := by
    simp [storeStatus, setSlot, hji]
  have hc (j : ℕ) : ((st.storeStatus i s).slots j).conn = (st.slots j).conn := by
    by_cases hji : j = i
    · subst hji
      simp [storeStatus, setSlot]
    · simp [storeStatus, setSlot, hji]
  refine ⟨fun {r j} hr => ?_, h.unique, fun {j} hj => ?_, fun {j} hj => ?_,
    fun {r j} hr => (hc j).symm ▸ h.relied hr, fun {j} hj => (hc j).symm ▸ h.published hj,
    h.stopped⟩
  · have hji : j ≠ i := by
      rintro rfl
      exact hno r hr
    exact (hother hji).trans (h.used hr)
  · by_cases hji : j = i
    · subst hji
      exact hself.trans (hjanitor hj)
    · exact (hother hji).trans (h.dead hj)
  · rw [hc j]
    by_cases hji : j = i
    · subst hji
      exact hconn (hself.symm.trans hj)
    · exact h.free ((hother hji).symm.trans hj)

/-- The hint, the flag and the next connection do not matter. -/
theorem keep (h : Exclusive cfg st) (hint : ℕ) (flag : Bool) (fresh : Conn) :
    Exclusive cfg { st with hintCursor := hint, isShutdown := flag, fresh := fresh } :=
  ⟨h.used, h.unique, h.dead, h.free, h.relied, h.published, h.stopped⟩

/-- The janitor replaces the connection of the slot it owns, on which no call
relies. -/
theorem repair (h : Exclusive cfg st) {newConn : Option Conn}
    (hj : st.janitor = .replacing i newConn) :
    Exclusive cfg { st.setSlot i ((st.slots i).replaceConn newConn) with
      janitor := .storing i (if newConn.isSome then .free else .inactive) } := by
  have hdead : (st.slots i).status = .dead := h.dead (by rw [hj]; rfl)
  have hother {j : ℕ} (hs : (st.slots j).status ≠ .dead) :
      Function.update st.slots i ((st.slots i).replaceConn newConn) j = st.slots j := by
    refine Function.update_of_ne ?_ _ _
    rintro rfl
    exact hs hdead
  have hstatus (j : ℕ) :
      (Function.update st.slots i ((st.slots i).replaceConn newConn) j).status =
        (st.slots j).status := by
    by_cases hji : j = i
    · subst hji
      simp [SlotHolder.replaceConn]
    · rw [Function.update_of_ne hji]
  refine ⟨fun hr => (hstatus _).trans (h.used hr), h.unique, fun {j} hk => ?_, fun {j} hk => ?_,
    fun {r j} hr => ?_, fun {j} hk => ?_, fun hc => ?_⟩
  · obtain rfl := Option.some.inj hk
    exact (hstatus i).trans hdead
  · have hfree : (st.slots j).status = .free := (hstatus j).symm.trans hk
    simp only [setSlot]
    rw [hother (by simp [hfree])]
    exact h.free hfree
  · simp only [setSlot]
    rw [hother (by simp [h.used (Call.slot_of_relies cfg hr)])]
    exact h.relied hr
  · obtain ⟨rfl, hfree⟩ :
        i = j ∧ (if newConn.isSome then SlotStatus.free else .inactive) = .free := by
      simpa using hk
    cases newConn with
    | none => cases hfree
    | some conn => simp [setSlot, SlotHolder.replaceConn]
  · have hstopped := h.stopped hc
    rw [hj] at hstopped
    cases hstopped

/-- The janitor goes on. -/
theorem sweeps (h : Exclusive cfg st) {j : Janitor} (hrunning : st.janitor ≠ .stopped)
    (hdead : ∀ i, j.slot = some i → (st.slots i).status = .dead)
    (hconn : ∀ i, j = .storing i .free → (st.slots i).conn ≠ none) :
    Exclusive cfg { st with janitor := j } :=
  ⟨h.used, h.unique, fun hj => hdead _ hj, h.free, h.relied, fun hj => hconn _ hj,
    fun hc => absurd (h.stopped hc) hrunning⟩

/-- `shutdown()` goes on. -/
theorem closes (h : Exclusive cfg st) {x : Closing} (hstopped : st.janitor = .stopped) :
    Exclusive cfg { st with closing := x } :=
  ⟨h.used, h.unique, h.dead, h.free, h.relied, h.published, fun _ => hstopped⟩

end Exclusive

/-! ### The constructor -/

/-- Nobody has called the pool yet. -/
structure Untouched (st : ConnectionPool) : Prop where
  calls : ∀ c, st.calls c = .idle
  janitor : st.janitor = .resting
  closing : st.closing = .idle
  isShutdown : st.isShutdown = false
  free : ∀ {i}, (st.slots i).status = .free → (st.slots i).conn ≠ none

theorem Untouched.construct {st : ConnectionPool} (h : Untouched st) (i : ℕ) (connects : Bool) :
    Untouched (st.construct i connects) := by
  have hcalls : (st.construct i connects).calls = st.calls := by cases connects <;> rfl
  refine ⟨fun c => by rw [hcalls, h.calls], ?_, ?_, ?_, fun {j} hj => ?_⟩
  · cases connects <;> exact h.janitor
  · cases connects <;> exact h.closing
  · cases connects <;> exact h.isShutdown
  · by_cases hji : j = i
    · subst hji
      cases connects <;>
        simp [ConnectionPool.construct, storeStatus, setSlot, SlotHolder.replaceConn] at hj ⊢
    · have hsame : (st.construct i connects).slots j = st.slots j := by
        cases connects <;> simp [ConnectionPool.construct, storeStatus, setSlot, hji]
      rw [hsame] at hj ⊢
      exact h.free hj

theorem untouched_start (cfg : PoolConfig.Valid) (attempts : ℕ → Bool) :
    Untouched (start cfg attempts) := by
  rw [start]
  induction cfg.1.minConnections with
  | zero => exact ⟨fun _ => rfl, rfl, rfl, rfl, fun {i} hi => by cases hi⟩
  | succ n ih =>
      rw [List.range_succ, List.foldl_append]
      exact ih.construct n (attempts n)

theorem Untouched.exclusive {st : ConnectionPool} (h : Untouched st) (cfg : PoolConfig.Valid) :
    Exclusive cfg st := by
  refine ⟨fun {c i} hc => ?_, fun {c c' i} hc _ => ?_, fun {i} hj => ?_, h.free, fun {c i} hc => ?_,
    fun {i} hj => ?_, fun hc => absurd h.closing hc⟩
  · simp [h.calls c, Call.slot] at hc
  · simp [h.calls c, Call.slot] at hc
  · simp [h.janitor, Janitor.slot] at hj
  · simp [h.calls c, Call.relies] at hc
  · simp [h.janitor] at hj

/-! ### One step -/

/-- The status that `shutdown()` overwrites is not USED. -/
def StoresUnclaimed (st : ConnectionPool) : Action → Prop
  | .closeStore => ∀ i, st.closing = .storing i → (st.slots i).status ≠ .used
  | _ => True

theorem slot_scanFree (cfg : PoolConfig.Valid) (start i : ℕ) :
    (scanFree cfg start i).slot cfg = none ∧ (scanFree cfg start i).relies = none := by
  rw [scanFree]
  split <;> exact ⟨rfl, rfl⟩

theorem slot_scanInactive (cfg : PoolConfig.Valid) (start i : ℕ) :
    (scanInactive cfg start i).slot cfg = none ∧ (scanInactive cfg start i).relies = none := by
  rw [scanInactive]
  split <;> exact ⟨rfl, rfl⟩

theorem slot_sweepFrom (cfg : PoolConfig.Valid) (i : ℕ) :
    (sweepFrom cfg i).slot = none ∧ ∀ j s, sweepFrom cfg i ≠ .storing j s := by
  rw [sweepFrom]
  split <;> exact ⟨rfl, fun j s => by simp⟩

namespace Exclusive

variable {cfg : PoolConfig.Valid} {st : ConnectionPool} {c i : ℕ}

/-- A call goes on without a slot. -/
theorem leaves (h : Exclusive cfg st) {v : Call} (hv : v.slot cfg = none ∧ v.relies = none) :
    Exclusive cfg (st.setCall c v) :=
  h.goes (fun i hi => by simp [hv.1] at hi) fun i hi => by simp [hv.2] at hi

/-- A call takes a slot that nobody owns. -/
theorem take (h : Exclusive cfg st) {v : Call} (hslot : v.slot cfg = some i)
    (hused : (st.slots i).status ≠ .used) (hdead : (st.slots i).status ≠ .dead)
    (hrelies : ∀ j, v.relies = some j → (st.slots j).conn ≠ none) :
    Exclusive cfg ((st.storeStatus i .used).setCall c v) := by
  have hno := h.unclaimed hused
  have hstored : Exclusive cfg (st.storeStatus i .used) :=
    h.store hno (fun hj => absurd (h.dead hj) hdead) (by simp)
  refine hstored.claim hslot (by simp [storeStatus, setSlot]) hno fun j hj => ?_
  have := hrelies j hj
  by_cases hji : j = i
  · subst hji
    simpa [storeStatus, setSlot] using this
  · simpa [storeStatus, setSlot, hji] using this

/-- A call gives its slot away with another status. -/
theorem drop (h : Exclusive cfg st) {v : Call} {s : SlotStatus}
    (hslot : (st.calls c).slot cfg = some i) (hv : v.slot cfg = none ∧ v.relies = none)
    (hconn : s = .free → (st.slots i).conn ≠ none) :
    Exclusive cfg ((st.storeStatus i s).setCall c v) := by
  have hleft : Exclusive cfg (st.setCall c v) := h.leaves hv
  refine hleft.store (fun r hr => ?_) (fun hj => ?_) hconn
  · by_cases hrc : r = c
    · subst hrc
      simp [setCall, hv.1] at hr
    · exact hrc (h.unique (by simpa [setCall, hrc] using hr) hslot)
  · have hdead := h.dead hj
    rw [h.used hslot] at hdead
    cases hdead

/-- The janitor goes on to the next slot. -/
theorem passes (h : Exclusive cfg st) (hrunning : st.janitor ≠ .stopped) (i : ℕ) :
    Exclusive cfg { st with janitor := sweepFrom cfg i } :=
  h.sweeps hrunning (fun j hj => by simp [(slot_sweepFrom cfg i).1] at hj)
    fun j hj => absurd hj ((slot_sweepFrom cfg i).2 j .free)

end Exclusive

/-- Cleanup that succeeds has found a connection. -/
theorem conn_of_runCleanupSql {slot : SlotHolder} {healthy answered : Bool}
    (h : (slot.runCleanupSql healthy answered).2 = true) : slot.conn ≠ none := by
  intro hnone
  simp [SlotHolder.runCleanupSql, hnone] at h

theorem runCleanupSql_fst (slot : SlotHolder) (healthy answered : Bool) :
    (slot.runCleanupSql healthy answered).1.status = slot.status ∧
      (slot.runCleanupSql healthy answered).1.conn = slot.conn := by
  simp only [SlotHolder.runCleanupSql]
  split
  · exact ⟨rfl, rfl⟩
  · split
    · exact ⟨rfl, rfl⟩
    · split <;> exact ⟨rfl, rfl⟩

theorem exclusive_step {cfg : PoolConfig.Valid} {st st' : ConnectionPool} {a : Action}
    (h : Exclusive cfg st) (hg : StoresUnclaimed st a) (hstep : Step cfg st a st') :
    Exclusive cfg st' := by
  have hrunning {j : Janitor} (hj : st.janitor = j) (hne : j ≠ .stopped) :
      st.janitor ≠ .stopped := by rwa [hj]
  have hstopped {x : Closing} (hc : st.closing = x) (hne : x ≠ .idle) : st.janitor = .stopped :=
    h.stopped (by rwa [hc])
  cases hstep with
  | called hc =>
      refine h.leaves ?_
      split <;> exact ⟨rfl, rfl⟩
  | readHint hc => exact h.leaves (slot_scanFree cfg _ _)
  | tookFree hc hs =>
      refine h.take rfl (by simp [hs]) (by simp [hs]) fun j hj => ?_
      obtain rfl := Option.some.inj hj
      exact h.free hs
  | passedFree hc hs => exact h.leaves (slot_scanFree cfg _ _)
  | tookInactive hc hs => exact h.take rfl (by simp [hs]) (by simp [hs]) fun j hj => by cases hj
  | passedInactive hc hs => exact h.leaves (slot_scanInactive cfg _ _)
  | connected hc =>
      exact (h.keep st.hintCursor st.isShutdown (st.fresh + 1)).goes
        (fun i hi => by rw [hc]; exact hi) fun i hi => by cases hi
  | failed hc => exact h.goes (fun i hi => by rw [hc]; exact hi) fun i hi => by cases hi
  | storedDead hc => exact h.drop (by rw [hc]; rfl) (slot_scanInactive cfg _ _) (by simp)
  | @replaced c start i conn hc =>
      have htouched : Exclusive cfg (st.setSlot (slotIndex cfg start i)
          ((st.slots (slotIndex cfg start i)).replaceConn (some conn))) :=
        h.touch rfl fun _ => by simp [SlotHolder.replaceConn]
      refine htouched.goes (fun j hj => ?_) fun j hj => ?_
      · rw [← hj]
        simp [setSlot, hc, Call.slot]
      · obtain rfl := Option.some.inj hj
        simp [setSlot, SlotHolder.replaceConn]
  | @setHint c idx hc =>
      exact (h.keep ((idx + 1) &&& (cfg.1.capacity - 1)) st.isShutdown st.fresh).goes
        (fun i hi => by rw [hc]; exact hi) fun i hi => h.relied (c := c) (by rw [hc]; exact hi)
  | setCleanup hc => exact h.touch rfl id
  | reset hc => exact h.goes (fun i hi => by rw [hc]; exact hi) fun i hi => by cases hi
  | @cleanedUp c idx healthy answered hc =>
      have hkeep := runCleanupSql_fst (st.slots idx) healthy answered
      have htouched := h.touch (i := idx) hkeep.1 (fun hne => by rwa [hkeep.2])
      refine htouched.goes (fun j hj => ?_) fun j hj => ?_
      · rw [← hj]
        simp [setSlot, hc, Call.slot]
      · cases hok : ((st.slots idx).runCleanupSql healthy answered).2 with
        | false => simp [hok, Call.relies] at hj
        | true =>
            obtain rfl : idx = j := by simpa [hok, Call.relies] using hj
            simpa [setSlot, hkeep.2] using conn_of_runCleanupSql hok
  | @released c idx ok hc =>
      refine h.drop (by rw [hc]; rfl) ⟨rfl, rfl⟩ fun hfree => ?_
      cases ok with
      | true => exact h.relied (by rw [hc]; rfl)
      | false => cases hfree
  | swept hj => exact h.passes (hrunning hj (by simp)) 0
  | sawDead hj hs =>
      refine h.sweeps (hrunning hj (by simp)) (fun i hi => ?_) fun i hi => by cases hi
      obtain rfl := Option.some.inj hi
      exact hs
  | sawFree hj hs =>
      exact h.sweeps (hrunning hj (by simp)) (fun i hi => by cases hi) fun i hi => by cases hi
  | sawOther hj hs hs' => exact h.passes (hrunning hj (by simp)) _
  | checkedGood hj hh => exact h.passes (hrunning hj (by simp)) _
  | checkedBad hj hh =>
      exact h.sweeps (hrunning hj (by simp)) (fun i hi => by cases hi) fun i hi => by cases hi
  | @demoted i hj hs =>
      have hstored : Exclusive cfg (st.storeStatus i .dead) :=
        h.store (h.unclaimed (by simp [hs])) (fun _ => rfl) (by simp)
      refine hstored.sweeps (hrunning hj (by simp)) (fun k hk => ?_) fun k hk => by cases hk
      obtain rfl := Option.some.inj hk
      simp [storeStatus, setSlot]
  | notDemoted hj hs => exact h.passes (hrunning hj (by simp)) _
  | sweepConnected hj =>
      exact (h.keep st.hintCursor st.isShutdown (st.fresh + 1)).sweeps (hrunning hj (by simp))
        (fun k hk => h.dead (by rw [hj]; exact hk)) fun k hk => by cases hk
  | sweepFailed hj =>
      exact h.sweeps (hrunning hj (by simp)) (fun k hk => h.dead (by rw [hj]; exact hk))
        fun k hk => by cases hk
  | sweepReplaced hj => exact h.repair hj
  | @sweepStored i status hj =>
      have hdead := h.dead (i := i) (by rw [hj]; rfl)
      have hpassed := h.passes (hrunning hj (by simp)) (i + 1)
      refine hpassed.store (h.unclaimed (by simp [hdead])) (fun hk => ?_) fun hfree => ?_
      · simp [(slot_sweepFrom cfg (i + 1)).1] at hk
      · exact h.published (by rw [hj, hfree])
  | stoppedJanitor hj =>
      have hne : st.janitor ≠ .stopped := by
        rcases hj with hj | ⟨i, hj⟩ <;> exact hrunning hj (by simp)
      exact h.sweeps hne (fun i hi => by cases hi) fun i hi => by cases hi
  | exchanged hj hs => exact (h.keep st.hintCursor true st.fresh).closes hj
  | exchangedAgain hj hs => exact h
  | closePassed hc hs => exact h.closes (hstopped hc (by simp))
  | closeLoaded hc hs hs' => exact h.closes (hstopped hc (by simp))
  | @closeStored i hc =>
      have hj := hstopped hc (by simp)
      have hstored : Exclusive cfg (st.storeStatus i .inactive) :=
        h.store (h.unclaimed (hg i hc)) (fun hk => by simp [hj, Janitor.slot] at hk) (by simp)
      exact hstored.closes hj

/-! ### Whole runs -/

/-- The slot on which a step calls `replace_conn`. -/
def replaces (cfg : PoolConfig.Valid) (st : ConnectionPool) : Action → Option ℕ
  | .replaceConn c =>
      match st.calls c with
      | .connected start i _ => some (slotIndex cfg start i)
      | _ => none
  | .sweepReplace =>
      match st.janitor with
      | .replacing i _ => some i
      | _ => none
  | _ => none

/-- No connection is replaced in a slot that is lent. -/
def SparesBorrowed (cfg : PoolConfig.Valid) (st : ConnectionPool) (a : Action) : Prop :=
  ∀ i ∈ st.replaces cfg a, ∀ c, st.calls c ≠ .borrowing i

/-- A slot that is lent is USED and has one borrower. -/
def Respected (st : ConnectionPool) : Prop :=
  (∀ c i, st.calls c = .borrowing i → (st.slots i).status = .used) ∧
    ∀ c c' i, st.calls c = .borrowing i → st.calls c' = .borrowing i → c = c'

namespace Exclusive

variable {cfg : PoolConfig.Valid} {st : ConnectionPool}

theorem respected (h : Exclusive cfg st) : Respected st :=
  ⟨fun c i hc => h.used (c := c) (by rw [hc]; rfl),
    fun c c' i hc hc' => h.unique (i := i) (by rw [hc]; rfl) (by rw [hc']; rfl)⟩

/-- The slot of a connection that is replaced has another owner than a
borrower. -/
theorem sparesBorrowed (h : Exclusive cfg st) (a : Action) : SparesBorrowed cfg st a := by
  intro i hi c hc
  have hslot : (st.calls c).slot cfg = some i := by rw [hc]; rfl
  cases a with
  | replaceConn r =>
      simp only [replaces] at hi
      split at hi
      · rename_i start j conn hr
        have hr' : (st.calls r).slot cfg = some i := by
          rw [hr]
          exact hi
        obtain rfl := h.unique hslot hr'
        rw [hc] at hr
        cases hr
      · cases hi
  | sweepReplace =>
      simp only [replaces] at hi
      split at hi
      · rename_i j newConn hj
        have hdead := h.dead (i := i) (by rw [hj]; exact hi)
        rw [h.used hslot] at hdead
        cases hdead
      · cases hi
  | _ => cases hi

end Exclusive

/-- Without `shutdown()` no status is overwritten by it. -/
theorem storesUnclaimed_of_open {cfg : PoolConfig.Valid} {attempts : ℕ → Bool} {as : List Action}
    {st : ConnectionPool} (h : run (step cfg) (start cfg attempts) as = some st)
    (hs : st.isShutdown = false) : Guarded (step cfg) StoresUnclaimed (start cfg attempts) as := by
  suffices hinv : Flagged st ∧ (st.isShutdown = false →
      ∀ p ∈ history (step cfg) (start cfg attempts) as, StoresUnclaimed p.1 p.2) from hinv.2 hs
  refine history_invariant (I := fun st hist => Flagged st ∧
      (st.isShutdown = false → ∀ p ∈ hist, StoresUnclaimed p.1 p.2))
    ⟨fun _ => (untouched_start cfg attempts).closing, fun _ p hp => absurd hp List.not_mem_nil⟩
    (fun st hist a st' hi hstep => ?_) h
  have hcases := step_cases hstep
  refine ⟨flagged_step hi.1 hcases, fun hs' p hp => ?_⟩
  have hopen := open_of_step hcases hs'
  rcases List.mem_append.mp hp with hp | hp
  · exact hi.2 hopen p hp
  · obtain rfl := List.mem_singleton.mp hp
    cases a with
    | closeStore =>
        intro i hc
        have hidle := hi.1 hopen
        rw [hc] at hidle
        cases hidle
    | _ => trivial

theorem exclusive_of_run {cfg : PoolConfig.Valid} {attempts : ℕ → Bool} {as : List Action}
    {st : ConnectionPool} (h : run (step cfg) (start cfg attempts) as = some st)
    (hg : Guarded (step cfg) StoresUnclaimed (start cfg attempts) as) : Exclusive cfg st :=
  guarded_invariant (I := fun st _ => Exclusive cfg st)
    ((untouched_start cfg attempts).exclusive cfg)
    (fun _ _ _ _ hi hga hstep => exclusive_step hi hga (step_cases hstep)) h hg

theorem sparesBorrowed_of_run {cfg : PoolConfig.Valid} {attempts : ℕ → Bool} {as : List Action}
    (hg : Guarded (step cfg) StoresUnclaimed (start cfg attempts) as) :
    Guarded (step cfg) (SparesBorrowed cfg) (start cfg attempts) as :=
  hg.mono ((untouched_start cfg attempts).exclusive cfg)
    (fun _ _ _ hi hga hstep => exclusive_step hi hga (step_cases hstep))
    fun _ a hi _ => hi.sparesBorrowed a

/-- In every interleaving without `shutdown()`, a slot that is lent has one
borrower, is USED and has a connection, which is not replaced until the
borrower calls `reset`; and every FREE slot has a connection. -/
theorem slots_exclusive (cfg : PoolConfig.Valid) (attempts : ℕ → Bool) (as : List Action)
    (st : ConnectionPool) (h : run (step cfg) (start cfg attempts) as = some st)
    (hs : st.isShutdown = false) :
    (∀ c c' i, st.calls c = .borrowing i → st.calls c' = .borrowing i → c = c') ∧
      (∀ c i, st.calls c = .borrowing i →
        (st.slots i).status = .used ∧ (st.slots i).conn ≠ none) ∧
      Guarded (step cfg) (SparesBorrowed cfg) (start cfg attempts) as ∧
      ∀ i, (st.slots i).status = .free → (st.slots i).conn ≠ none := by
  have hg := storesUnclaimed_of_open h hs
  have hex := exclusive_of_run h hg
  refine ⟨hex.respected.2, fun c i hc => ⟨hex.respected.1 c i hc, ?_⟩, sparesBorrowed_of_run hg,
    fun i hi => hex.free hi⟩
  exact hex.relied (c := c) (by rw [hc]; rfl)

/-- One call takes the slot that is connected, another connects the other one,
while the janitor sweeps. -/
def bothLent : List Action :=
  [.sweep, .sweepLoad, .call 0, .readHint 0, .compareExchange 0, .setHint 0, .sweepCheck true,
    .call 1, .readHint 1, .compareExchange 1, .compareExchange 1, .compareExchange 1,
    .createConnection 1 true, .replaceConn 1, .setHint 1]

theorem slots_exclusive_bothLent :
    ∃ st, run (step minimal) (start minimal fun _ => true) bothLent = some st ∧
      st.isShutdown = false ∧ st.calls 0 = .borrowing 0 ∧ st.calls 1 = .borrowing 1 ∧
      ((st.slots 1).status = .used ∧ (st.slots 1).conn ≠ none) ∧
      Guarded (step minimal) (SparesBorrowed minimal) (start minimal fun _ => true) bothLent := by
  have hexclusive := slots_exclusive minimal (fun _ => true) bothLent _ rfl rfl
  exact ⟨_, rfl, rfl, rfl, rfl, hexclusive.2.1 1 1 rfl, hexclusive.2.2.1⟩

/-- In every interleaving in which `shutdown()` overwrites no USED status, a
slot that is lent stays USED, has one borrower and keeps its connection until
the borrower calls `reset`. -/
theorem shutdown_respects_borrowers (cfg : PoolConfig.Valid) (attempts : ℕ → Bool)
    (as : List Action) (st : ConnectionPool)
    (h : run (step cfg) (start cfg attempts) as = some st)
    (hg : Guarded (step cfg) StoresUnclaimed (start cfg attempts) as) :
    Always (step cfg) Respected (start cfg attempts) as ∧
      Guarded (step cfg) (SparesBorrowed cfg) (start cfg attempts) as := by
  refine ⟨?_, sparesBorrowed_of_run hg⟩
  exact always_of_guarded ((untouched_start cfg attempts).exclusive cfg)
    (fun _ _ _ hi hga hstep => exclusive_step hi hga (step_cases hstep))
    (fun _ hi => hi.respected) h hg

/-- Two calls have passed the test of `shutdown_` when it is set. One takes a slot that is not
loaded yet, the other one connects the slot that `shutdown()` has marked. -/
def lentWhileClosing : List Action :=
  [.call 0, .readHint 0, .call 1, .readHint 1, .stopJanitor, .exchange, .compareExchange 0,
    .setHint 0, .closeLoad, .compareExchange 1, .closeLoad, .compareExchange 1, .closeStore,
    .compareExchange 1, .compareExchange 1, .createConnection 1 true, .replaceConn 1, .setHint 1]

theorem shutdown_respects_lentWhileClosing :
    (∃ st, run (step minimal) (start minimal fun _ => true) lentWhileClosing = some st ∧
      st.calls 0 = .borrowing 0 ∧ st.calls 1 = .borrowing 1) ∧
    Guarded (step minimal) StoresUnclaimed (start minimal fun _ => true) lentWhileClosing ∧
      Always (step minimal) Respected (start minimal fun _ => true) lentWhileClosing := by
  have hg : Guarded (step minimal) StoresUnclaimed (start minimal fun _ => true)
      lentWhileClosing := by
    iterate 12 refine (guarded_cons rfl).mpr ⟨trivial, ?_⟩
    refine (guarded_cons rfl).mpr ⟨fun i hi => ?_, ?_⟩
    · cases hi
      decide
    · iterate 5 refine (guarded_cons rfl).mpr ⟨trivial, ?_⟩
      exact fun a ha => absurd ha List.not_mem_nil
  exact ⟨⟨_, rfl, rfl, rfl⟩, hg,
    (shutdown_respects_borrowers minimal _ lentWhileClosing _ rfl hg).1⟩

/-- `shutdown()` has loaded FREE from the first slot when a call takes the slot
and returns with it. -/
def takenWhileClosing : List Action :=
  [.call 0, .readHint 0, .call 1, .readHint 1, .stopJanitor, .exchange, .closeLoad,
    .compareExchange 0, .setHint 0, .closeStore]

/-- Another call that has passed the test of `shutdown_` finds the slot
INACTIVE. -/
def lentAgain : List Action :=
  [.compareExchange 1, .compareExchange 1, .compareExchange 1, .createConnection 1 true,
    .replaceConn 1, .setHint 1]

theorem takenWhileClosing_lent_twice :
    ∃ st st', run (step minimal) (start minimal fun _ => true) takenWhileClosing = some st ∧
      st.calls 0 = .borrowing 0 ∧ (st.slots 0).status = .inactive ∧
      run (step minimal) st lentAgain = some st' ∧
      st'.calls 0 = .borrowing 0 ∧ st'.calls 1 = .borrowing 0 ∧
      (st.slots 0).conn = some 0 ∧ (st'.slots 0).conn = some 1 :=
  ⟨_, _, rfl, rfl, rfl, rfl, rfl, rfl, rfl, rfl⟩

end ConnectionPool

end Demiplane.Postgres.LockFree

import Demiplane.Postgres.LockFree.ConnectionPool
import Demiplane.Transition.Run

/-!
Everything a step of the lock-free pool can do, said once, with what it finds
and the state it leaves.
-/

namespace Demiplane.Postgres.LockFree

open Transition

namespace ConnectionPool

/-- The ways a step can go. -/
inductive Step (cfg : PoolConfig.Valid) (st : ConnectionPool) : Action → ConnectionPool → Prop
  | called {c : ℕ} (hc : st.calls c = .idle) :
      Step cfg st (.call c) (st.setCall c (if st.isShutdown then .returned else .entered))
  | readHint {c : ℕ} (hc : st.calls c = .entered) :
      Step cfg st (.readHint c) (st.setCall c (scanFree cfg st.hintCursor 0))
  | tookFree {c start i : ℕ} (hc : st.calls c = .scanningFree start i)
      (hs : (st.slots (slotIndex cfg start i)).status = .free) :
      Step cfg st (.compareExchange c)
        ((st.storeStatus (slotIndex cfg start i) .used).setCall c
          (.taken (slotIndex cfg start i)))
  | passedFree {c start i : ℕ} (hc : st.calls c = .scanningFree start i)
      (hs : (st.slots (slotIndex cfg start i)).status ≠ .free) :
      Step cfg st (.compareExchange c) (st.setCall c (scanFree cfg start (i + 1)))
  | tookInactive {c start i : ℕ} (hc : st.calls c = .scanningInactive start i)
      (hs : (st.slots (slotIndex cfg start i)).status = .inactive) :
      Step cfg st (.compareExchange c)
        ((st.storeStatus (slotIndex cfg start i) .used).setCall c (.creating start i))
  | passedInactive {c start i : ℕ} (hc : st.calls c = .scanningInactive start i)
      (hs : (st.slots (slotIndex cfg start i)).status ≠ .inactive) :
      Step cfg st (.compareExchange c) (st.setCall c (scanInactive cfg start (i + 1)))
  | connected {c start i : ℕ} (hc : st.calls c = .creating start i) :
      Step cfg st (.createConnection c true)
        ({ st with fresh := st.fresh + 1 }.setCall c (.connected start i st.fresh))
  | failed {c start i : ℕ} (hc : st.calls c = .creating start i) :
      Step cfg st (.createConnection c false) (st.setCall c (.failed start i))
  | storedDead {c start i : ℕ} (hc : st.calls c = .failed start i) :
      Step cfg st (.storeDead c)
        ((st.storeStatus (slotIndex cfg start i) .dead).setCall c
          (scanInactive cfg start (i + 1)))
  | replaced {c start i : ℕ} {conn : Conn} (hc : st.calls c = .connected start i conn) :
      Step cfg st (.replaceConn c)
        ((st.setSlot (slotIndex cfg start i)
          ((st.slots (slotIndex cfg start i)).replaceConn (some conn))).setCall c
            (.taken (slotIndex cfg start i)))
  | setHint {c idx : ℕ} (hc : st.calls c = .taken idx) :
      Step cfg st (.setHint c)
        ({ st with hintCursor := (idx + 1) &&& (cfg.1.capacity - 1) }.setCall c
          (.borrowing idx))
  | setCleanup {c idx : ℕ} {query : CleanupQuery} (hc : st.calls c = .borrowing idx) :
      Step cfg st (.setCleanup c query) (st.setSlot idx ((st.slots idx).setCleanup query))
  | reset {c idx : ℕ} (hc : st.calls c = .borrowing idx) :
      Step cfg st (.reset c) (st.setCall c (.resetting idx))
  | cleanedUp {c idx : ℕ} {healthy answered : Bool} (hc : st.calls c = .resetting idx) :
      Step cfg st (.cleanup c healthy answered)
        ((st.setSlot idx ((st.slots idx).runCleanupSql healthy answered).1).setCall c
          (.cleaned idx ((st.slots idx).runCleanupSql healthy answered).2))
  | released {c idx : ℕ} {ok : Bool} (hc : st.calls c = .cleaned idx ok) :
      Step cfg st (.release c)
        ((st.storeStatus idx (if ok then .free else .dead)).setCall c .returned)
  | swept (hj : st.janitor = .resting) :
      Step cfg st .sweep { st with janitor := sweepFrom cfg 0 }
  | sawDead {i : ℕ} (hj : st.janitor = .loading i) (hs : (st.slots i).status = .dead) :
      Step cfg st .sweepLoad { st with janitor := .connecting i }
  | sawFree {i : ℕ} (hj : st.janitor = .loading i) (hs : (st.slots i).status = .free) :
      Step cfg st .sweepLoad { st with janitor := .checking i }
  | sawOther {i : ℕ} (hj : st.janitor = .loading i) (hs : (st.slots i).status ≠ .dead)
      (hs' : (st.slots i).status ≠ .free) :
      Step cfg st .sweepLoad { st with janitor := sweepFrom cfg (i + 1) }
  | checkedGood {i : ℕ} {healthy : Bool} (hj : st.janitor = .checking i)
      (hh : (st.slots i).conn ≠ none ∧ healthy = true) :
      Step cfg st (.sweepCheck healthy) { st with janitor := sweepFrom cfg (i + 1) }
  | checkedBad {i : ℕ} {healthy : Bool} (hj : st.janitor = .checking i)
      (hh : ¬ ((st.slots i).conn ≠ none ∧ healthy = true)) :
      Step cfg st (.sweepCheck healthy) { st with janitor := .demoting i }
  | demoted {i : ℕ} (hj : st.janitor = .demoting i) (hs : (st.slots i).status = .free) :
      Step cfg st .sweepExchange { st.storeStatus i .dead with janitor := .connecting i }
  | notDemoted {i : ℕ} (hj : st.janitor = .demoting i) (hs : (st.slots i).status ≠ .free) :
      Step cfg st .sweepExchange { st with janitor := sweepFrom cfg (i + 1) }
  | sweepConnected {i : ℕ} (hj : st.janitor = .connecting i) :
      Step cfg st (.sweepConnect true)
        { st with fresh := st.fresh + 1, janitor := .replacing i (some st.fresh) }
  | sweepFailed {i : ℕ} (hj : st.janitor = .connecting i) :
      Step cfg st (.sweepConnect false) { st with janitor := .replacing i none }
  | sweepReplaced {i : ℕ} {newConn : Option Conn} (hj : st.janitor = .replacing i newConn) :
      Step cfg st .sweepReplace
        { st.setSlot i ((st.slots i).replaceConn newConn) with
          janitor := .storing i (if newConn.isSome then .free else .inactive) }
  | sweepStored {i : ℕ} {status : SlotStatus} (hj : st.janitor = .storing i status) :
      Step cfg st .sweepStore { st.storeStatus i status with janitor := sweepFrom cfg (i + 1) }
  | stoppedJanitor (hj : st.janitor = .resting ∨ ∃ i, st.janitor = .loading i) :
      Step cfg st .stopJanitor { st with janitor := .stopped }
  | exchanged (hj : st.janitor = .stopped) (hs : st.isShutdown = false) :
      Step cfg st .exchange { st with isShutdown := true, closing := closeFrom cfg 0 }
  | exchangedAgain (hj : st.janitor = .stopped) (hs : st.isShutdown = true) :
      Step cfg st .exchange st
  | closePassed {i : ℕ} (hc : st.closing = .loading i)
      (hs : (st.slots i).status = .used ∨ (st.slots i).status = .waiting) :
      Step cfg st .closeLoad { st with closing := closeFrom cfg (i + 1) }
  | closeLoaded {i : ℕ} (hc : st.closing = .loading i) (hs : (st.slots i).status ≠ .used)
      (hs' : (st.slots i).status ≠ .waiting) :
      Step cfg st .closeLoad { st with closing := .storing i }
  | closeStored {i : ℕ} (hc : st.closing = .storing i) :
      Step cfg st .closeStore
        { st.storeStatus i .inactive with closing := closeFrom cfg (i + 1) }

theorem step_cases {cfg : PoolConfig.Valid} {st st' : ConnectionPool} {a : Action}
    (h : st.step cfg a = some st') : Step cfg st a st' := by
  cases a with
  | call c =>
      simp only [step] at h
      split at h
      · rename_i hc
        obtain rfl := Option.some.inj h
        exact .called hc
      · cases h
  | readHint c =>
      simp only [step] at h
      split at h
      · rename_i hc
        obtain rfl := Option.some.inj h
        exact .readHint hc
      · cases h
  | compareExchange c =>
      simp only [step, compareExchange] at h
      split at h
      · rename_i start i hc
        split at h
        · rename_i hs
          obtain rfl := Option.some.inj h
          exact .tookFree hc hs
        · rename_i hs
          obtain rfl := Option.some.inj h
          exact .passedFree hc hs
      · rename_i start i hc
        split at h
        · rename_i hs
          obtain rfl := Option.some.inj h
          exact .tookInactive hc hs
        · rename_i hs
          obtain rfl := Option.some.inj h
          exact .passedInactive hc hs
      · cases h
  | createConnection c connects =>
      simp only [step, createConnection] at h
      split at h
      · rename_i start i hc
        cases connects with
        | true =>
            obtain rfl := Option.some.inj h
            exact .connected hc
        | false =>
            obtain rfl := Option.some.inj h
            exact .failed hc
      · cases h
  | storeDead c =>
      simp only [step, storeDead] at h
      split at h
      · rename_i start i hc
        obtain rfl := Option.some.inj h
        exact .storedDead hc
      · cases h
  | replaceConn c =>
      simp only [step, replaceConn] at h
      split at h
      · rename_i start i conn hc
        obtain rfl := Option.some.inj h
        exact .replaced hc
      · cases h
  | setHint c =>
      simp only [step, setHint] at h
      split at h
      · rename_i idx hc
        obtain rfl := Option.some.inj h
        exact .setHint hc
      · cases h
  | setCleanup c query =>
      simp only [step] at h
      split at h
      · rename_i idx hc
        obtain rfl := Option.some.inj h
        exact .setCleanup hc
      · cases h
  | reset c =>
      simp only [step] at h
      split at h
      · rename_i idx hc
        obtain rfl := Option.some.inj h
        exact .reset hc
      · cases h
  | cleanup c healthy answered =>
      simp only [step, cleanup] at h
      split at h
      · rename_i idx hc
        obtain rfl := Option.some.inj h
        exact .cleanedUp hc
      · cases h
  | release c =>
      simp only [step, release] at h
      split at h
      · rename_i idx ok hc
        obtain rfl := Option.some.inj h
        exact .released hc
      · cases h
  | sweep =>
      simp only [step] at h
      split at h
      · rename_i hj
        obtain rfl := Option.some.inj h
        exact .swept hj
      · cases h
  | sweepLoad =>
      simp only [step, sweepLoad] at h
      split at h
      · rename_i i hj
        obtain rfl := Option.some.inj h
        cases hs : (st.slots i).status with
        | dead => exact .sawDead hj hs
        | free => exact .sawFree hj hs
        | used | waiting | inactive => exact .sawOther hj (by simp [hs]) (by simp [hs])
      · cases h
  | sweepCheck healthy =>
      simp only [step, sweepCheck] at h
      split at h
      · rename_i i hj
        obtain rfl := Option.some.inj h
        split
        · rename_i hh
          exact .checkedGood hj hh
        · rename_i hh
          exact .checkedBad hj hh
      · cases h
  | sweepExchange =>
      simp only [step, sweepExchange] at h
      split at h
      · rename_i i hj
        split at h
        · rename_i hs
          obtain rfl := Option.some.inj h
          exact .demoted hj hs
        · rename_i hs
          obtain rfl := Option.some.inj h
          exact .notDemoted hj hs
      · cases h
  | sweepConnect connects =>
      simp only [step, sweepConnect] at h
      split at h
      · rename_i i hj
        cases connects with
        | true =>
            obtain rfl := Option.some.inj h
            exact .sweepConnected hj
        | false =>
            obtain rfl := Option.some.inj h
            exact .sweepFailed hj
      · cases h
  | sweepReplace =>
      simp only [step, sweepReplace] at h
      split at h
      · rename_i i newConn hj
        obtain rfl := Option.some.inj h
        exact .sweepReplaced hj
      · cases h
  | sweepStore =>
      simp only [step, sweepStore] at h
      split at h
      · rename_i i status hj
        obtain rfl := Option.some.inj h
        exact .sweepStored hj
      · cases h
  | stopJanitor =>
      simp only [step] at h
      split at h
      · rename_i hj
        obtain rfl := Option.some.inj h
        exact .stoppedJanitor (.inl hj)
      · rename_i i hj
        obtain rfl := Option.some.inj h
        exact .stoppedJanitor (.inr ⟨i, hj⟩)
      · cases h
  | exchange =>
      simp only [step] at h
      split at h
      · rename_i hj
        obtain rfl := Option.some.inj h
        split
        · rename_i hs
          exact .exchangedAgain hj hs
        · rename_i hs
          exact .exchanged hj (Bool.not_eq_true _ ▸ hs)
      · cases h
  | closeLoad =>
      simp only [step, closeLoad] at h
      split at h
      · rename_i i hc
        obtain rfl := Option.some.inj h
        cases hs : (st.slots i).status with
        | used => exact .closePassed hc (.inl hs)
        | waiting => exact .closePassed hc (.inr hs)
        | free | dead | inactive => exact .closeLoaded hc (by simp [hs]) (by simp [hs])
      · cases h
  | closeStore =>
      simp only [step, closeStore] at h
      split at h
      · rename_i i hc
        obtain rfl := Option.some.inj h
        exact .closeStored hc
      · cases h

theorem open_of_step {cfg : PoolConfig.Valid} {st st' : ConnectionPool} {a : Action}
    (hstep : Step cfg st a st') (hs' : st'.isShutdown = false) : st.isShutdown = false := by
  cases hstep with
  | exchanged hj hs => cases hs'
  | _ => exact hs'

/-- `shutdown()` runs only once it has set the flag. -/
def Flagged (st : ConnectionPool) : Prop := st.isShutdown = false → st.closing = .idle

theorem flagged_step {cfg : PoolConfig.Valid} {st st' : ConnectionPool} {a : Action}
    (h : Flagged st) (hstep : Step cfg st a st') : Flagged st' := by
  intro hs'
  have hidle := h (open_of_step hstep hs')
  cases hstep with
  | exchanged hj hs => cases hs'
  | closePassed hc hs | closeLoaded hc hs hs' | closeStored hc =>
      rw [hc] at hidle
      cases hidle
  | _ => exact hidle

end ConnectionPool

end Demiplane.Postgres.LockFree

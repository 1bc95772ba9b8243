import Demiplane.Postgres.LockFree.Exclusivity
import Demiplane.Transition.Trace

/-!
Whose cleanup query is sent. `cleanup_sql_` is a member of the holder, which outlives the borrow
and the connection. A reset that sends the query clears it; a reset that finds the connection
bad returns before that, and the janitor that repairs the slot replaces the connection only. A
query that is pending belongs to the call that lends the slot as long as no reset leaves one
behind.
-/

namespace Demiplane.Postgres.LockFree

open Transition
open PoolConfig (minimal)

/-- What happens to the cleanup query of a slot. -/
inductive CleanupEvent where
  | set (c idx : ℕ) (query : CleanupQuery)
  | sent (c idx : ℕ) (sql : String)
  deriving DecidableEq

def CleanupEvent.slot : CleanupEvent → ℕ
  | .set _ idx _ | .sent _ idx _ => idx

/-- A query that is sent has been set by the same call, and nothing has been set or sent in the
slot since then: nobody has sent it before. -/
def FromBorrower (pre : List CleanupEvent) : CleanupEvent → Prop
  | .set _ _ _ => True
  | .sent c idx sql => ∃ pre₁ pre₂ query, pre = pre₁ ++ .set c idx query :: pre₂ ∧
      query.toSql = some sql ∧ ∀ e ∈ pre₂, e.slot ≠ idx

/-- The slot that a call lends, until its reset has run the cleanup. -/
def Call.lends : Call → Option ℕ
  | .borrowing idx | .resetting idx => some idx
  | _ => none

theorem Call.slot_of_lends (cfg : PoolConfig.Valid) {call : Call} {i : ℕ}
    (h : call.lends = some i) : call.slot cfg = some i := by
  cases call with
  | borrowing idx | resetting idx => exact h
  | _ => cases h

namespace SlotHolder

/-- The query that `run_cleanup_sql` passes to `PQexec`, if it comes to that. -/
def sends (slot : SlotHolder) (healthy : Bool) : Option String :=
  if slot.conn = none ∨ healthy = false then none
  else
    match slot.cleanupSql with
    | none => none
    | some sql => if sql = "" then none else some sql

theorem sends_cleanupSql {slot : SlotHolder} {healthy : Bool} {sql : String}
    (h : slot.sends healthy = some sql) : slot.cleanupSql = some sql := by
  unfold sends at h
  split_ifs at h
  split at h
  · cases h
  · split_ifs at h
    rename_i sql' hsql _
    rw [hsql, Option.some.inj h]

end SlotHolder

namespace ConnectionPool

def emitCleanup (st : ConnectionPool) : Action → List CleanupEvent
  | .setCleanup c query =>
      match st.calls c with
      | .borrowing idx => [.set c idx query]
      | _ => []
  | .cleanup c healthy _ =>
      match st.calls c with
      | .resetting idx => ((st.slots idx).sends healthy).toList.map (.sent c idx)
      | _ => []
  | _ => []

/-- A reset that finds the connection bad has no query to run. -/
def LeavesNone (st : ConnectionPool) : Action → Prop
  | .cleanup c healthy _ => ∀ idx, st.calls c = .resetting idx →
      ((st.slots idx).conn = none ∨ healthy = false) → (st.slots idx).cleanupSql = none
  | _ => True

/-- A pending query is the last one that was set in its slot, by the call that lends it. -/
def Pending (st : ConnectionPool) (tr : List CleanupEvent) : Prop :=
  ∀ i sql, (st.slots i).cleanupSql = some sql →
    ∃ c pre₁ pre₂ query, tr = pre₁ ++ .set c i query :: pre₂ ∧ query.toSql = some sql ∧
      (∀ e ∈ pre₂, e.slot ≠ i) ∧ (st.calls c).lends = some i

variable {tr : List CleanupEvent} {st : ConnectionPool}

/-- The queries and the lent slots stay as they are, and so does what is pending. -/
theorem Pending.keep {st st' : ConnectionPool} (h : Pending st tr)
    (hsql : ∀ i, (st'.slots i).cleanupSql = (st.slots i).cleanupSql)
    (hlends : ∀ c i, (st.calls c).lends = some i → (st'.calls c).lends = some i) :
    Pending st' tr := by
  intro i sql hi
  obtain ⟨c, pre₁, pre₂, query, htr, hquery, hlast, hc⟩ := h i sql (hsql i ▸ hi)
  exact ⟨c, pre₁, pre₂, query, htr, hquery, hlast, hlends c i hc⟩

theorem cleanupSql_setSlot {i : ℕ} {slot : SlotHolder}
    (h : slot.cleanupSql = (st.slots i).cleanupSql) (j : ℕ) :
    ((st.setSlot i slot).slots j).cleanupSql = (st.slots j).cleanupSql := by
  by_cases hji : j = i
  · subst hji
    simpa [setSlot] using h
  · simp [setSlot, hji]

/-- A call that lends nothing goes on. -/
theorem lends_setCall {c : ℕ} (v : Call) (h : (st.calls c).lends = none)
    (r i : ℕ) (hr : (st.calls r).lends = some i) : ((st.setCall c v).calls r).lends = some i := by
  by_cases hrc : r = c
  · subst hrc
    rw [h] at hr
    cases hr
  · simpa [setCall, hrc] using hr

/-- An event in one slot does not change what is pending in the others. -/
theorem Pending.elsewhere (h : Pending st tr)
    {i j : ℕ} {sql : String} (hji : j ≠ i) (hj : (st.slots j).cleanupSql = some sql)
    {us : List CleanupEvent} (hus : ∀ e ∈ us, e.slot = i) :
    ∃ c pre₁ pre₂ query, tr ++ us = pre₁ ++ .set c j query :: pre₂ ∧ query.toSql = some sql ∧
      (∀ e ∈ pre₂, e.slot ≠ j) ∧ (st.calls c).lends = some j := by
  obtain ⟨c, pre₁, pre₂, query, rfl, hquery, hlast, hc⟩ := h j sql hj
  refine ⟨c, pre₁, pre₂ ++ us, query, by simp, hquery, fun e he => ?_, hc⟩
  rcases List.mem_append.mp he with he | he
  · exact hlast e he
  · rw [hus e he]
    exact hji.symm

theorem pending_setCleanup {c idx : ℕ}
    {query : CleanupQuery} (h : Pending st tr) (hc : st.calls c = .borrowing idx) :
    Pending (st.setSlot idx ((st.slots idx).setCleanup query)) (tr ++ [.set c idx query]) := by
  intro j sql hj
  by_cases hji : j = idx
  · subst hji
    have hsql : query.toSql = some sql := by simpa [setSlot, SlotHolder.setCleanup] using hj
    exact ⟨c, tr, [], query, rfl, hsql, by simp, by simp [setSlot, hc, Call.lends]⟩
  · have hj' : (st.slots j).cleanupSql = some sql := by simpa [setSlot, hji] using hj
    exact h.elsewhere hji hj' (by simp [CleanupEvent.slot])

/-- Behind a cleanup the slot has no query: it has been sent, or there was none. -/
theorem cleanupSql_runCleanupSql {slot : SlotHolder} {healthy : Bool} (answered : Bool)
    (hnonempty : slot.cleanupSql ≠ some "")
    (hleft : slot.conn = none ∨ healthy = false → slot.cleanupSql = none) :
    (slot.runCleanupSql healthy answered).1.cleanupSql = none := by
  unfold SlotHolder.runCleanupSql
  split
  · rename_i hbad
    exact hleft hbad
  · split
    · assumption
    · rename_i sql hsql
      split
      · rename_i hempty
        exact absurd (hempty ▸ hsql) hnonempty
      · rfl

theorem toSql_ne_empty (query : CleanupQuery) : query.toSql ≠ some "" := by
  cases query <;> decide

theorem Pending.ne_empty (h : Pending st tr)
    (i : ℕ) : (st.slots i).cleanupSql ≠ some "" := by
  intro hi
  obtain ⟨c, pre₁, pre₂, query, -, hquery, -⟩ := h i "" hi
  exact toSql_ne_empty query hquery

theorem pending_cleanup {c idx : ℕ}
    {healthy answered : Bool} (h : Pending st tr) (hc : st.calls c = .resetting idx)
    (hleft : LeavesNone st (.cleanup c healthy answered)) :
    Pending ((st.setSlot idx ((st.slots idx).runCleanupSql healthy answered).1).setCall c
        (.cleaned idx ((st.slots idx).runCleanupSql healthy answered).2))
      (tr ++ ((st.slots idx).sends healthy).toList.map (.sent c idx)) := by
  intro j sql hj
  by_cases hji : j = idx
  · subst hji
    have hnone := cleanupSql_runCleanupSql answered (h.ne_empty j) (hleft j hc)
    simp [setCall, setSlot, hnone] at hj
  · have hj' : (st.slots j).cleanupSql = some sql := by simpa [setCall, setSlot, hji] using hj
    have hus : ∀ e ∈ ((st.slots idx).sends healthy).toList.map (CleanupEvent.sent c idx),
        e.slot = idx := by
      intro e he
      obtain ⟨sql', -, rfl⟩ := List.mem_map.mp he
      rfl
    obtain ⟨r, pre₁, pre₂, query, htr, hquery, hlast, hr⟩ := h.elsewhere hji hj' hus
    -- the call that resets lends its own slot, not this one
    have hrc : r ≠ c := by
      rintro rfl
      rw [hc] at hr
      exact hji (Option.some.inj hr).symm
    exact ⟨r, pre₁, pre₂, query, htr, hquery, hlast, by simpa [setCall, setSlot, hrc] using hr⟩

/-- What a reset sends, its own borrower has set. -/
theorem fromBorrower_sent {cfg : PoolConfig.Valid}
    {c idx : ℕ} {healthy : Bool} {sql : String} (hex : Exclusive cfg st) (h : Pending st tr)
    (hc : st.calls c = .resetting idx) (hsends : (st.slots idx).sends healthy = some sql) :
    FromBorrower tr (.sent c idx sql) := by
  obtain ⟨r, pre₁, pre₂, query, htr, hquery, hlast, hr⟩ :=
    h idx sql (SlotHolder.sends_cleanupSql hsends)
  have hslot : (st.calls c).slot cfg = some idx := by rw [hc]; rfl
  obtain rfl := hex.unique (Call.slot_of_lends cfg hr) hslot
  exact ⟨pre₁, pre₂, query, htr, hquery, hlast⟩

/-- What holds along a run that leaves no query behind. -/
structure QueriesKept (cfg : PoolConfig.Valid) (st : ConnectionPool) (tr : List CleanupEvent) :
    Prop where
  exclusive : Exclusive cfg st
  pending : Pending st tr
  justified : Justified FromBorrower tr

theorem justified_emitCleanup {cfg : PoolConfig.Valid}
    (h : QueriesKept cfg st tr) (a : Action) :
    Justified FromBorrower (tr ++ st.emitCleanup a) := by
  refine h.justified.append fun us₁ e us₂ hus => ?_
  cases a with
  | setCleanup c query =>
      simp only [emitCleanup] at hus
      split at hus
      · obtain ⟨rfl, rfl⟩ := split_singleton hus
        trivial
      · simp at hus
  | cleanup c healthy answered =>
      simp only [emitCleanup] at hus
      split at hus
      · rename_i idx hc
        cases hsends : (st.slots idx).sends healthy with
        | none => simp [hsends] at hus
        | some sql =>
            rw [hsends] at hus
            obtain ⟨rfl, rfl⟩ := split_singleton hus
            rw [List.append_nil]
            exact fromBorrower_sent h.exclusive h.pending hc hsends
      · simp at hus
  | _ => simp [emitCleanup] at hus

theorem pending_step {cfg : PoolConfig.Valid} {st st' : ConnectionPool} {a : Action}
    (h : QueriesKept cfg st tr) (hleft : LeavesNone st a)
    (hstep : Step cfg st a st') : Pending st' (tr ++ st.emitCleanup a) := by
  have hp := h.pending
  have hcall {c : ℕ} {x : Call} (hc : st.calls c = x) (hx : x.lends = none) :
      (st.calls c).lends = none := by rw [hc, hx]
  cases hstep with
  | setCleanup hc =>
      simp only [emitCleanup, hc]
      exact pending_setCleanup hp hc
  | cleanedUp hc =>
      simp only [emitCleanup, hc]
      exact pending_cleanup hp hc hleft
  | @reset c idx hc =>
      simp only [emitCleanup, List.append_nil]
      refine hp.keep (fun i => rfl) fun r i hr => ?_
      by_cases hrc : r = c
      · subst hrc
        rw [hc] at hr
        obtain rfl := Option.some.inj hr
        simp [setCall, Call.lends]
      · simpa [setCall, hrc] using hr
  | called hc | readHint hc | passedFree hc hs | passedInactive hc hs | connected hc | failed hc
  | setHint hc =>
      simp only [emitCleanup, List.append_nil]
      exact hp.keep (fun i => rfl) (lends_setCall _ (hcall hc rfl))
  | tookFree hc hs | tookInactive hc hs | storedDead hc | replaced hc | released hc =>
      simp only [emitCleanup, List.append_nil]
      exact hp.keep (cleanupSql_setSlot rfl) (lends_setCall _ (hcall hc rfl))
  | demoted hj hs | sweepReplaced hj | sweepStored hj | closeStored hj =>
      simp only [emitCleanup, List.append_nil]
      exact hp.keep (cleanupSql_setSlot rfl) fun r i hr => hr
  | _ =>
      simp only [emitCleanup, List.append_nil]
      exact hp.keep (fun i => rfl) fun r i hr => hr

theorem cleanupSql_construct (st : ConnectionPool) (i : ℕ) (connects : Bool) (j : ℕ) :
    ((st.construct i connects).slots j).cleanupSql = (st.slots j).cleanupSql := by
  by_cases hji : j = i
  · subst hji
    cases connects <;> simp [construct, storeStatus, setSlot, SlotHolder.replaceConn]
  · cases connects <;> simp [construct, storeStatus, setSlot, hji]

theorem cleanupSql_start (cfg : PoolConfig.Valid) (attempts : ℕ → Bool) (i : ℕ) :
    ((start cfg attempts).slots i).cleanupSql = none := by
  rw [start]
  induction cfg.1.minConnections with
  | zero => rfl
  | succ n ih =>
      rw [List.range_succ, List.foldl_append, List.foldl_cons, List.foldl_nil,
        cleanupSql_construct, ih]

/-- In every interleaving in which no reset on a bad connection has a query to run and
`shutdown()` overwrites no USED status, every query that is sent was set by the borrower whose
reset sends it, and had not been sent before. -/
theorem cleanup_stays_with_borrower (cfg : PoolConfig.Valid) (attempts : ℕ → Bool)
    (as : List Action) (st : ConnectionPool)
    (h : run (step cfg) (start cfg attempts) as = some st)
    (hg : Guarded (step cfg) (fun st a => StoresUnclaimed st a ∧ LeavesNone st a)
      (start cfg attempts) as) :
    Justified FromBorrower (trace (step cfg) emitCleanup (start cfg attempts) as) := by
  have hinit : QueriesKept cfg (start cfg attempts) [] := by
    refine ⟨(untouched_start cfg attempts).exclusive cfg, fun i sql hi => ?_, justified_nil⟩
    rw [cleanupSql_start] at hi
    cases hi
  have hkept := guarded_invariant
    (I := fun st hist => QueriesKept cfg st (hist.flatMap fun p => p.1.emitCleanup p.2)) hinit
    (fun u hist a u' hi hga hstep => ?_) h hg
  · exact hkept.justified
  · rw [List.flatMap_append, List.flatMap_singleton]
    have hcases := step_cases hstep
    exact ⟨exclusive_step hi.exclusive hga.1 hcases, pending_step hi hga.2 hcases,
      justified_emitCleanup hi a⟩

/-- A borrower sets a query twice and gives the slot back; the next one sets none. -/
def twoBorrowers : List Action :=
  [.call 0, .readHint 0, .compareExchange 0, .setHint 0, .setCleanup 0 .resetAll,
    .setCleanup 0 .discardAll, .reset 0, .cleanup 0 true true, .release 0,
    .call 1, .readHint 1, .compareExchange 1, .compareExchange 1, .setHint 1, .reset 1,
    .cleanup 1 true true, .release 1]

theorem cleanup_stays_with_twoBorrowers :
    trace (step minimal) emitCleanup (start minimal fun _ => true) twoBorrowers =
        [.set 0 0 .resetAll, .set 0 0 .discardAll, .sent 0 0 "DISCARD ALL"] ∧
      Justified FromBorrower
        (trace (step minimal) emitCleanup (start minimal fun _ => true) twoBorrowers) := by
  have hg : Guarded (step minimal) (fun st a => StoresUnclaimed st a ∧ LeavesNone st a)
      (start minimal fun _ => true) twoBorrowers := by
    iterate 7 refine (guarded_cons rfl).mpr ⟨⟨trivial, trivial⟩, ?_⟩
    refine (guarded_cons rfl).mpr ⟨⟨trivial, fun idx hidx hbad => ?_⟩, ?_⟩
    · cases hidx
      exact absurd hbad (by decide)
    iterate 7 refine (guarded_cons rfl).mpr ⟨⟨trivial, trivial⟩, ?_⟩
    refine (guarded_cons rfl).mpr ⟨⟨trivial, fun idx hidx hbad => ?_⟩, ?_⟩
    · cases hidx
      exact absurd hbad (by decide)
    refine (guarded_cons rfl).mpr ⟨⟨trivial, trivial⟩, ?_⟩
    exact fun a ha => absurd ha List.not_mem_nil
  exact ⟨rfl, cleanup_stays_with_borrower minimal _ twoBorrowers _ rfl hg⟩

/-- The connection of the first borrower turns bad; the janitor replaces it, and the second
borrower sets nothing. -/
def repairedBetween : List Action :=
  [.call 0, .readHint 0, .compareExchange 0, .setHint 0, .setCleanup 0 .discardAll, .reset 0,
    .cleanup 0 false true, .release 0, .sweep, .sweepLoad, .sweepConnect true, .sweepReplace,
    .sweepStore, .call 1, .readHint 1, .compareExchange 1, .compareExchange 1, .setHint 1, .reset 1,
    .cleanup 1 true true, .release 1]

theorem repairedBetween_sends_foreign_query :
    (run (step minimal) (start minimal fun _ => true) repairedBetween).isSome ∧
      trace (step minimal) emitCleanup (start minimal fun _ => true) repairedBetween =
        [.set 0 0 .discardAll, .sent 1 0 "DISCARD ALL"] ∧
      ¬ Justified FromBorrower
        (trace (step minimal) emitCleanup (start minimal fun _ => true) repairedBetween) := by
  refine ⟨rfl, rfl, fun h => ?_⟩
  obtain ⟨pre₁, pre₂, query, hpre, -, -⟩ :=
    h [.set 0 0 .discardAll] (.sent 1 0 "DISCARD ALL") [] rfl
  cases (split_singleton hpre).2

end ConnectionPool

end Demiplane.Postgres.LockFree

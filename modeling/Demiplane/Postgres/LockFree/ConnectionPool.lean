import Mathlib.Data.List.Basic
import Mathlib.Logic.Function.Basic
import Mathlib.Tactic.Common
import Demiplane.Postgres.PoolConfig

/-!
`ConnectionPool`: a fixed number of slots, each with a status byte that says
what may be done with it. Nothing is locked. A step is one access to a status
byte or to `hint_cursor_`, or one call of something outside of the pool: an
attempt to connect, a health check, the cleanup query, the exchange of a
connection. Whether an attempt succeeds, whether a connection is healthy and
what becomes of a query is up to the environment.

A call is one call of `acquire_slot` together with the borrow it leads to. A
thread that has several slots at a time makes several calls.
-/

namespace Demiplane.Postgres.LockFree

/-! ### Holders -/

inductive CleanupQuery where
  | none
  | resetAll
  | deallocateAll
  | discardTemp
  | discardAll
  deriving DecidableEq

def CleanupQuery.toSql : CleanupQuery → Option String
  | .none => Option.none
  | .resetAll => some "RESET ALL"
  | .deallocateAll => some "DEALLOCATE ALL"
  | .discardTemp => some "DISCARD TEMP"
  | .discardAll => some "DISCARD ALL"

inductive SlotStatus where
  | free
  | used
  | waiting
  | dead
  | inactive
  deriving DecidableEq

/-- `PGconn*`s by the order in which they are opened. -/
abbrev Conn := ℕ

structure SlotHolder where
  status : SlotStatus
  conn : Option Conn
  cleanupSql : Option String

namespace SlotHolder

/-- `SlotHolder()`. -/
def blank : SlotHolder := ⟨.inactive, none, none⟩

def setCleanup (slot : SlotHolder) (query : CleanupQuery) : SlotHolder :=
  { slot with cleanupSql := query.toSql }

def replaceConn (slot : SlotHolder) (newConn : Option Conn) : SlotHolder :=
  { slot with conn := newConn }

/-- `healthy` is what `PQstatus` says of the connection, `answered` what
becomes of the cleanup query if one is sent. -/
def runCleanupSql (slot : SlotHolder) (healthy answered : Bool) : SlotHolder × Bool :=
  if slot.conn = none ∨ healthy = false then (slot, false)
  else
    match slot.cleanupSql with
    | none => (slot, true)
    | some sql => if sql = "" then (slot, true) else ({ slot with cleanupSql := none }, answered)

end SlotHolder

/-! ### State -/

/-- Where a call stands in `acquire_slot` or, later, in `reset`. `start` is the
hint the scan began at and `i` the turn of the loop; `creating`, `failed` and
`connected` are inside of the second loop, with the slot taken. `taken` is
about to move the hint, `borrowing` has returned with the slot. -/
inductive Call where
  | idle
  | entered
  | scanningFree (start i : ℕ)
  | scanningInactive (start i : ℕ)
  | creating (start i : ℕ)
  | failed (start i : ℕ)
  | connected (start i : ℕ) (conn : Conn)
  | taken (idx : ℕ)
  | borrowing (idx : ℕ)
  | resetting (idx : ℕ)
  | cleaned (idx : ℕ) (ok : Bool)
  | returned
  deriving DecidableEq

/-- Where the janitor stands: between two sweeps, or in a sweep at a slot. Both
branches of `sweep` that replace a connection end in the same way. -/
inductive Janitor where
  | resting
  | loading (i : ℕ)
  | checking (i : ℕ)
  | demoting (i : ℕ)
  | connecting (i : ℕ)
  | replacing (i : ℕ) (newConn : Option Conn)
  | storing (i : ℕ) (status : SlotStatus)
  | stopped
  deriving DecidableEq

/-- `shutdown()`: not called, about to load the status of a slot, about to
overwrite it, returned. -/
inductive Closing where
  | idle
  | loading (i : ℕ)
  | storing (i : ℕ)
  | returned
  deriving DecidableEq

structure ConnectionPool where
  slots : ℕ → SlotHolder
  hintCursor : ℕ
  isShutdown : Bool
  fresh : Conn
  calls : ℕ → Call
  janitor : Janitor
  closing : Closing

inductive Action where
  | call (c : ℕ)
  | readHint (c : ℕ)
  | compareExchange (c : ℕ)
  | createConnection (c : ℕ) (connects : Bool)
  | storeDead (c : ℕ)
  | replaceConn (c : ℕ)
  | setHint (c : ℕ)
  | setCleanup (c : ℕ) (query : CleanupQuery)
  | reset (c : ℕ)
  | cleanup (c : ℕ) (healthy answered : Bool)
  | release (c : ℕ)
  | sweep
  | sweepLoad
  | sweepCheck (healthy : Bool)
  | sweepExchange
  | sweepConnect (connects : Bool)
  | sweepReplace
  | sweepStore
  | stopJanitor
  | exchange
  | closeLoad
  | closeStore
  deriving DecidableEq

namespace ConnectionPool

def setCall (st : ConnectionPool) (c : ℕ) (call : Call) : ConnectionPool :=
  { st with calls := Function.update st.calls c call }

def setSlot (st : ConnectionPool) (i : ℕ) (slot : SlotHolder) : ConnectionPool :=
  { st with slots := Function.update st.slots i slot }

/-- `status.store`. -/
def storeStatus (st : ConnectionPool) (i : ℕ) (status : SlotStatus) : ConnectionPool :=
  st.setSlot i { st.slots i with status := status }

/-! ### The constructor -/

/-- One turn of the loop over `min_connections`. -/
def construct (st : ConnectionPool) (i : ℕ) (connects : Bool) : ConnectionPool :=
  if connects then
    { st.setSlot i ((st.slots i).replaceConn (some st.fresh)) with
      fresh := st.fresh + 1 }.storeStatus i .free
  else st.storeStatus i .dead

def empty : ConnectionPool where
  slots _ := .blank
  hintCursor := 0
  isShutdown := false
  fresh := 0
  calls _ := .idle
  janitor := .resting
  closing := .idle

def start (cfg : PoolConfig.Valid) (attempts : ℕ → Bool) : ConnectionPool :=
  (List.range cfg.1.minConnections).foldl (fun st i => st.construct i (attempts i)) empty

/-! ### `acquire_slot` and `reset` -/

/-- The slot at turn `i` of a scan from `start`; the mask is `capacity - 1`. -/
def slotIndex (cfg : PoolConfig.Valid) (start i : ℕ) : ℕ := (start + i) &&& (cfg.1.capacity - 1)

/-- The first loop goes on. -/
def scanFree (cfg : PoolConfig.Valid) (start i : ℕ) : Call :=
  if i < cfg.1.capacity then .scanningFree start i else .scanningInactive start 0

/-- The second loop goes on. -/
def scanInactive (cfg : PoolConfig.Valid) (start i : ℕ) : Call :=
  if i < cfg.1.capacity then .scanningInactive start i else .returned

/-- The compare-exchange of the first or the second loop. -/
def compareExchange (cfg : PoolConfig.Valid) (st : ConnectionPool) (c : ℕ) :
    Option ConnectionPool :=
  match st.calls c with
  | .scanningFree start i =>
      let idx := slotIndex cfg start i
      if (st.slots idx).status = .free then
        some ((st.storeStatus idx .used).setCall c (.taken idx))
      else some (st.setCall c (scanFree cfg start (i + 1)))
  | .scanningInactive start i =>
      let idx := slotIndex cfg start i
      if (st.slots idx).status = .inactive then
        some ((st.storeStatus idx .used).setCall c (.creating start i))
      else some (st.setCall c (scanInactive cfg start (i + 1)))
  | _ => none

def createConnection (st : ConnectionPool) (c : ℕ) (connects : Bool) : Option ConnectionPool :=
  match st.calls c with
  | .creating start i =>
      if connects then
        some ({ st with fresh := st.fresh + 1 }.setCall c (.connected start i st.fresh))
      else some (st.setCall c (.failed start i))
  | _ => none

def storeDead (cfg : PoolConfig.Valid) (st : ConnectionPool) (c : ℕ) : Option ConnectionPool :=
  match st.calls c with
  | .failed start i =>
      some ((st.storeStatus (slotIndex cfg start i) .dead).setCall c
        (scanInactive cfg start (i + 1)))
  | _ => none

def replaceConn (cfg : PoolConfig.Valid) (st : ConnectionPool) (c : ℕ) : Option ConnectionPool :=
  match st.calls c with
  | .connected start i conn =>
      let idx := slotIndex cfg start i
      some ((st.setSlot idx ((st.slots idx).replaceConn (some conn))).setCall c (.taken idx))
  | _ => none

def setHint (cfg : PoolConfig.Valid) (st : ConnectionPool) (c : ℕ) : Option ConnectionPool :=
  match st.calls c with
  | .taken idx =>
      some ({ st with hintCursor := (idx + 1) &&& (cfg.1.capacity - 1) }.setCall c
        (.borrowing idx))
  | _ => none

/-- The cleanup that `reset` runs before it stores the status. -/
def cleanup (st : ConnectionPool) (c : ℕ) (healthy answered : Bool) : Option ConnectionPool :=
  match st.calls c with
  | .resetting idx =>
      let r := (st.slots idx).runCleanupSql healthy answered
      some ((st.setSlot idx r.1).setCall c (.cleaned idx r.2))
  | _ => none

def release (st : ConnectionPool) (c : ℕ) : Option ConnectionPool :=
  match st.calls c with
  | .cleaned idx ok =>
      some ((st.storeStatus idx (if ok then .free else .dead)).setCall c .returned)
  | _ => none

/-! ### `sweep` -/

/-- The loop of `sweep` goes on. -/
def sweepFrom (cfg : PoolConfig.Valid) (i : ℕ) : Janitor :=
  if i < cfg.1.capacity then .loading i else .resting

def sweepLoad (cfg : PoolConfig.Valid) (st : ConnectionPool) : Option ConnectionPool :=
  match st.janitor with
  | .loading i =>
      some { st with
        janitor :=
          match (st.slots i).status with
          | .dead => .connecting i
          | .free => .checking i
          | .used | .waiting | .inactive => sweepFrom cfg (i + 1) }
  | _ => none

def sweepCheck (cfg : PoolConfig.Valid) (st : ConnectionPool) (healthy : Bool) :
    Option ConnectionPool :=
  match st.janitor with
  | .checking i =>
      some { st with
        janitor :=
          if (st.slots i).conn ≠ none ∧ healthy = true then sweepFrom cfg (i + 1)
          else .demoting i }
  | _ => none

def sweepExchange (cfg : PoolConfig.Valid) (st : ConnectionPool) : Option ConnectionPool :=
  match st.janitor with
  | .demoting i =>
      if (st.slots i).status = .free then
        some { st.storeStatus i .dead with janitor := .connecting i }
      else some { st with janitor := sweepFrom cfg (i + 1) }
  | _ => none

def sweepConnect (st : ConnectionPool) (connects : Bool) : Option ConnectionPool :=
  match st.janitor with
  | .connecting i =>
      if connects then
        some { st with fresh := st.fresh + 1, janitor := .replacing i (some st.fresh) }
      else some { st with janitor := .replacing i none }
  | _ => none

def sweepReplace (st : ConnectionPool) : Option ConnectionPool :=
  match st.janitor with
  | .replacing i newConn =>
      some { st.setSlot i ((st.slots i).replaceConn newConn) with
        janitor := .storing i (if newConn.isSome then .free else .inactive) }
  | _ => none

def sweepStore (cfg : PoolConfig.Valid) (st : ConnectionPool) : Option ConnectionPool :=
  match st.janitor with
  | .storing i status =>
      some { st.storeStatus i status with janitor := sweepFrom cfg (i + 1) }
  | _ => none

/-! ### `shutdown` -/

/-- The loop of `shutdown()` goes on. -/
def closeFrom (cfg : PoolConfig.Valid) (i : ℕ) : Closing :=
  if i < cfg.1.capacity then .loading i else .returned

def closeLoad (cfg : PoolConfig.Valid) (st : ConnectionPool) : Option ConnectionPool :=
  match st.closing with
  | .loading i =>
      some { st with
        closing :=
          match (st.slots i).status with
          | .used | .waiting => closeFrom cfg (i + 1)
          | .free | .dead | .inactive => .storing i }
  | _ => none

def closeStore (cfg : PoolConfig.Valid) (st : ConnectionPool) : Option ConnectionPool :=
  match st.closing with
  | .storing i => some { st.storeStatus i .inactive with closing := closeFrom cfg (i + 1) }
  | _ => none

/-! ### Steps -/

/-- One step. The session stops the janitor before it shuts the pool down. -/
def step (cfg : PoolConfig.Valid) (st : ConnectionPool) : Action → Option ConnectionPool
  | .call c =>
      match st.calls c with
      | .idle => some (st.setCall c (if st.isShutdown then .returned else .entered))
      | _ => none
  | .readHint c =>
      match st.calls c with
      | .entered => some (st.setCall c (scanFree cfg st.hintCursor 0))
      | _ => none
  | .compareExchange c => st.compareExchange cfg c
  | .createConnection c connects => st.createConnection c connects
  | .storeDead c => st.storeDead cfg c
  | .replaceConn c => st.replaceConn cfg c
  | .setHint c => st.setHint cfg c
  | .setCleanup c query =>
      match st.calls c with
      | .borrowing idx => some (st.setSlot idx ((st.slots idx).setCleanup query))
      | _ => none
  | .reset c =>
      match st.calls c with
      | .borrowing idx => some (st.setCall c (.resetting idx))
      | _ => none
  | .cleanup c healthy answered => st.cleanup c healthy answered
  | .release c => st.release c
  | .sweep =>
      match st.janitor with
      | .resting => some { st with janitor := sweepFrom cfg 0 }
      | _ => none
  | .sweepLoad => st.sweepLoad cfg
  | .sweepCheck healthy => st.sweepCheck cfg healthy
  | .sweepExchange => st.sweepExchange cfg
  | .sweepConnect connects => st.sweepConnect connects
  | .sweepReplace => st.sweepReplace
  | .sweepStore => st.sweepStore cfg
  | .stopJanitor =>
      match st.janitor with
      | .resting | .loading _ => some { st with janitor := .stopped }
      | _ => none
  | .exchange =>
      match st.janitor with
      | .stopped =>
          some (if st.isShutdown then st
            else { st with isShutdown := true, closing := closeFrom cfg 0 })
      | _ => none
  | .closeLoad => st.closeLoad cfg
  | .closeStore => st.closeStore cfg

end ConnectionPool

end Demiplane.Postgres.LockFree

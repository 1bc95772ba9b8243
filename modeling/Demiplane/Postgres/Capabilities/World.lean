import Mathlib.Data.Int.Basic
import Mathlib.Logic.Function.Basic
import Demiplane.Postgres.Errors
import Demiplane.Sql.Session

/-!
The objects that a session of the lock-free pool hands out, and the connections
they work on: `SyncExecutor`, `AsyncExecutor`, `Transaction`, `AutoTransaction`
and `Savepoint`. A step is one call of a member function, constructor or
destructor, or something that happens to a connection in between.

Connections are numbered in the order in which they are opened, so a connection
that the pool has replaced is never lent again and another one is. The program
has pointers instead, and may find another connection behind one that is freed;
nobody does who keeps to a connection while it is lent. Which slot a connection
sits in is of no interest here. Every lending of a connection is a
`Borrow`; the program has no name for it, but a holder is handed from object to
object, and it is the borrow that says which of them it came from.
-/

namespace Demiplane.Postgres.Capabilities

open Sql Errors

variable {ε : Type*}

/-! ### Connections -/

/-- What becomes of a statement that is handed to `PQexec`: the server answers
it, it is never sent and `PQexec` returns null (no memory, or the connection is
busy), or the connection breaks, before the server has seen it or after. -/
inductive Fate where
  | answered (accepts : Bool) (refusal : Refusal)
  | unsent (errorMessage : String)
  | lost (reached : Bool) (errorMessage : String)

structure Link (ε : Type*) where
  alive : Bool
  session : Session ε

namespace Link

/-- `PQstatus`. -/
def status (l : Link ε) : ConnStatusType := if l.alive then .ok else .bad

/-- The server gives up the session of a connection that is gone. -/
def broken (l : Link ε) : Link ε := ⟨false, l.session.closed⟩

def pqExec (l : Link ε) (stmt : Statement ε) (fate : Fate) : Link ε × Option PGresult :=
  if l.alive then
    match fate with
    | .answered accepts refusal =>
        let (session, ok) := l.session.exec stmt accepts
        ({ l with session := session }, some (if ok then .completed else refusal.result))
    | .unsent _ => (l, none)
    | .lost reached errorMessage =>
        let session := if reached then (l.session.exec stmt true).1 else l.session
        (broken { l with session := session }, some (.broken errorMessage))
  else (l, none)

end Link

/-- `PQerrorMessage` behind a call that has returned null. -/
def Fate.errorMessage : Fate → String
  | .answered _ _ => ""
  | .unsent message | .lost _ message => message

/-! ### Objects -/

/-- The `turn`-th lending of a connection. -/
structure Borrow where
  conn : ℕ
  turn : ℕ
  deriving DecidableEq, Repr

/-- `holder_` and `conn_`, which every capability has. -/
structure Handle where
  holder : Option Borrow
  conn : Option ℕ
  deriving DecidableEq, Repr

/-- What a move leaves behind. -/
def Handle.empty : Handle := ⟨none, none⟩

inductive IsolationLevel where
  | readCommitted
  | repeatableRead
  | serializable
  deriving DecidableEq, Repr

def IsolationLevel.toString : IsolationLevel → String
  | .readCommitted => "READ COMMITTED"
  | .repeatableRead => "REPEATABLE READ"
  | .serializable => "SERIALIZABLE"

inductive AccessMode where
  | readWrite
  | readOnly
  deriving DecidableEq, Repr

def AccessMode.toString : AccessMode → String
  | .readWrite => "READ WRITE"
  | .readOnly => "READ ONLY"

structure TransactionOptions where
  isolation : IsolationLevel := .readCommitted
  access : AccessMode := .readWrite
  deferrable : Bool := false
  deriving DecidableEq, Repr

/-- The error is the text of the exception. -/
def TransactionOptions.toBeginSql (o : TransactionOptions) : Except String String :=
  if o.deferrable ∧ (o.isolation ≠ .serializable ∨ o.access ≠ .readOnly) then
    .error "DEFERRABLE is only valid with SERIALIZABLE READ ONLY"
  else
    .ok ("BEGIN ISOLATION LEVEL " ++ o.isolation.toString ++ " " ++ o.access.toString ++
      if o.deferrable then " DEFERRABLE" else "")

inductive TransactionStatus where
  | idle
  | active
  | committed
  | rolledBack
  | failed
  deriving DecidableEq, Repr

structure Transaction extends Handle where
  options : TransactionOptions
  status : TransactionStatus
  deriving DecidableEq, Repr

/-- `executor` is a `SyncExecutor` or an `AsyncExecutor`, `transaction` a
`Transaction` or the one in an `AutoTransaction`. -/
inductive Capability where
  | executor (async : Bool) (handle : Handle)
  | transaction (auto : Bool) (tx : Transaction)
  deriving DecidableEq, Repr

namespace Capability

def handle : Capability → Handle
  | .executor _ h => h
  | .transaction _ tx => tx.toHandle

/-- The object behind a move out of it. -/
def movedFrom : Capability → Capability
  | .executor async _ => .executor async .empty
  | .transaction auto tx => .transaction auto ⟨.empty, tx.options, .failed⟩

/-- `is_active()` of a transaction. -/
def isActive : Capability → Bool
  | .executor _ _ => false
  | .transaction _ tx => tx.status = .active

def sameClass : Capability → Capability → Bool
  | .executor async _, .executor async' _ => async == async'
  | .transaction auto _, .transaction auto' _ => auto == auto'
  | _, _ => false

end Capability

/-- `origin` is the borrow of the transaction that has set the savepoint; the
program does not keep it. -/
structure Savepoint where
  conn : Option ℕ
  name : String
  active : Bool
  origin : Option Borrow
  deriving DecidableEq, Repr

def Savepoint.movedFrom (sp : Savepoint) : Savepoint := ⟨none, "", false, sp.origin⟩

/-- Allowed: `[a-zA-Z_][a-zA-Z0-9_]*`, at most 63 characters. -/
def isValidIdentifier (name : String) : Bool :=
  match name.toList with
  | [] => false
  | c :: cs =>
      (c :: cs).length ≤ 63 && (c.isAlpha || c == '_') &&
        (c :: cs).all fun d => d.isAlphanum || d == '_'

/-! ### State -/

/-- Who is given a borrow: an object, or nobody because its constructor throws. -/
inductive Owner where
  | executor
  | transaction
  | nobody
  deriving DecidableEq, Repr

/-- What the pool sees: that it lends a connection, and that `reset()` is called
on a holder, with the connection as it is then. -/
inductive Booking (ε : Type*) where
  | acquired (b : Borrow) (owner : Owner)
  | reset (b : Borrow) (link : Link ε)

/-- A control statement that is handed to `PQexec` for a borrow, and whether it
succeeds. -/
structure Sent (ε : Type*) where
  borrow : Borrow
  stmt : Statement ε
  ok : Bool

/-- `links`, `lent` and `turns` are the connections, whether they are lent, and
how often they have been. `bookings` and `sent` only record what has happened. -/
structure World (ε : Type*) where
  links : ℕ → Link ε
  lent : ℕ → Bool
  turns : ℕ → ℕ
  poolAlive : Bool
  objects : ℕ → Option Capability
  savepoints : ℕ → Option Savepoint
  bookings : List (Booking ε)
  sent : List (Sent ε)

def start : World ε where
  links _ := ⟨true, .connected⟩
  lent _ := false
  turns _ := 0
  poolAlive := true
  objects _ := none
  savepoints _ := none
  bookings := []
  sent := []

/-- Why a call does not succeed: it returns an error, or throws. -/
inductive Failure where
  | returned (error : ErrorContext)
  | thrown (what : String)

def invalidState : Failure := .returned (.ofCode (.client .invalidState))

namespace World

/-! ### Sending -/

/-- `sender` is the borrow that a control statement is sent for. -/
def pqExec (w : World ε) (sender : Option Borrow) (conn : Option ℕ) (stmt : Statement ε)
    (fate : Fate) : World ε × Option PGresult :=
  match conn with
  | none => (w, none)
  | some k =>
      let (link, result) := (w.links k).pqExec stmt fate
      let ok := result.any fun r => (processResult r).toBool
      let sent := if (w.links k).alive then sender.toList.map fun b => ⟨b, stmt, ok⟩ else []
      ({ w with links := Function.update w.links k link, sent := w.sent ++ sent }, result)

/-- `PQstatus`, `none` for the null connection. -/
def connStatus (w : World ε) (conn : Option ℕ) : Option ConnStatusType :=
  conn.map fun k => (w.links k).status

/-- `SyncExecutor::execute_impl`. -/
def execute (w : World ε) (sender : Option Borrow) (conn : Option ℕ) (stmt : Statement ε)
    (fate : Fate) : World ε × Except ErrorContext Unit :=
  let ec := checkConnection (w.connStatus conn)
  if ec.isSuccess then
    match w.pqExec sender conn stmt fate with
    | (w', none) => (w', .error (extractConnectionError (w'.connStatus conn) fate.errorMessage))
    | (w', some result) => (w', (processResult result).map fun _ => ())
  else (w, .error (.ofCode ec))

/-! ### Holders -/

/-- `ConnectionHolder::reset`. A cleanup query that it sends is a statement like
those of other users of the connection. -/
def reset (w : World ε) (b : Borrow) : World ε :=
  { w with
    lent := Function.update w.lent b.conn false
    bookings := w.bookings ++ [.reset b (w.links b.conn)] }

/-- `holder_.lock()`: the pool owns the holders. -/
def lock (w : World ε) (holder : Option Borrow) : Option Borrow :=
  if w.poolAlive then holder else none

/-- `if (auto live = holder_.lock()) live->reset();` -/
def letGo (w : World ε) (holder : Option Borrow) : World ε :=
  match w.lock holder with
  | none => w
  | some b => w.reset b

def set (w : World ε) (i : ℕ) (o : Option Capability) : World ε :=
  { w with objects := Function.update w.objects i o }

def put (w : World ε) (i : ℕ) (c : Capability) : World ε := w.set i (some c)

def drop (w : World ε) (i : ℕ) : World ε := w.set i none

def putSavepoint (w : World ε) (s : ℕ) (sp : Savepoint) : World ε :=
  { w with savepoints := Function.update w.savepoints s (some sp) }

def dropSavepoint (w : World ε) (s : ℕ) : World ε :=
  { w with savepoints := Function.update w.savepoints s none }

/-! ### Transaction -/

def executeControl (w : World ε) (tx : Transaction) (stmt : Statement ε) (fate : Fate) :
    World ε × Except ErrorContext Unit :=
  w.execute tx.holder tx.conn stmt fate

def begin (w : World ε) (tx : Transaction) (fate : Fate) :
    World ε × Transaction × Except Failure Unit :=
  if tx.status = .idle then
    match tx.options.toBeginSql with
    | .error what => (w, tx, .error (.thrown what))
    | .ok _ =>
        let (w', result) := w.executeControl tx .begin fate
        (w', { tx with status := if result.toBool then .active else .failed },
          result.mapError .returned)
  else (w, tx, .error invalidState)

/-- `commit` and `rollback` differ in the statement and in the status it ends in. -/
def finish (w : World ε) (stmt : Statement ε) (done : TransactionStatus) (tx : Transaction)
    (fate : Fate) : World ε × Transaction × Except Failure Unit :=
  if tx.status = .active then
    let (w', result) := w.executeControl tx stmt fate
    (w', { tx with status := if result.toBool then done else .failed }, result.mapError .returned)
  else (w, tx, .error invalidState)

def commit (w : World ε) (tx : Transaction) (fate : Fate) :
    World ε × Transaction × Except Failure Unit :=
  w.finish .commit .committed tx fate

def rollback (w : World ε) (tx : Transaction) (fate : Fate) :
    World ε × Transaction × Except Failure Unit :=
  w.finish .rollback .rolledBack tx fate

/-- `with_sync`, followed by a query on the executor. -/
def withSync (w : World ε) (tx : Transaction) (effect : ε) (fate : Fate) :
    World ε × Except Failure Unit :=
  if tx.status = .active then
    let (w', result) := w.execute none tx.conn (.command (.query effect)) fate
    (w', result.mapError .returned)
  else (w, .error invalidState)

def savepoint (w : World ε) (tx : Transaction) (name : String) (fate : Fate) :
    World ε × Except Failure Savepoint :=
  if tx.status = .active then
    if isValidIdentifier name then
      let (w', result) := w.execute none tx.conn (.command (.savepoint name)) fate
      (w', (result.map fun _ => ⟨tx.conn, name, true, tx.holder⟩).mapError .returned)
    else
      (w, .error (.returned { ErrorContext.ofCode (.client .invalidArgument) with
        message := "Invalid savepoint name: '" ++ name ++ "'" }))
  else (w, .error invalidState)

/-- `~Transaction`. The result of the ROLLBACK is not looked at, nor is the
connection. -/
def destroyTransaction (w : World ε) (tx : Transaction) (fate : Fate) : World ε :=
  match w.lock tx.holder with
  | none => w
  | some b =>
      let w' := if tx.status = .active then (w.pqExec tx.holder tx.conn .rollback fate).1 else w
      w'.reset b

/-- The destructor of a capability. -/
def destroy (w : World ε) (c : Capability) (fate : Fate) : World ε :=
  match c with
  | .executor _ h => w.letGo h.holder
  | .transaction _ tx => w.destroyTransaction tx fate

/-! ### Savepoint -/

/-- `Savepoint::rollback`. -/
def savepointRollback (w : World ε) (sp : Savepoint) (fate : Fate) :
    World ε × Except Failure Unit :=
  if sp.active then
    let (w', result) := w.execute none sp.conn (.command (.rollbackTo sp.name)) fate
    (w', result.mapError .returned)
  else (w, .error invalidState)

/-- `Savepoint::release`. -/
def savepointRelease (w : World ε) (sp : Savepoint) (fate : Fate) :
    World ε × Savepoint × Except Failure Unit :=
  if sp.active then
    let (w', result) := w.execute none sp.conn (.command (.release sp.name)) fate
    (w', { sp with active := !result.toBool }, result.mapError .returned)
  else (w, sp, .error invalidState)

end World

/-! ### Entry points -/

/-- How the calls of `setup_connection` come out; `socket` is the descriptor and
`descriptor` says whether a `stream_descriptor` can be made of it. -/
structure Setup where
  nonblocking : Bool
  socket : ℤ
  descriptor : Except String Unit
  errorMessage : String

/-- `AsyncExecutor::setup_connection` on a connection of the given status; an
error is the text of the exception and the result is `cached_socket_fd_`. -/
def setupConnection (status : ConnStatusType) (setup : Setup) : Except String ℤ :=
  if (checkConnection (some status)).isSuccess then
    if setup.nonblocking then
      if setup.socket < 0 then .error "AsyncExecutor: invalid socket descriptor"
      else setup.descriptor.map fun _ => setup.socket
    else .error ("AsyncExecutor: failed to set non-blocking mode - " ++ setup.errorMessage)
  else .error ("AsyncExecutor: " ++ setup.errorMessage)

/-- The entry points of `LockFreeSession`; those with a timeout differ in how
they wait for a connection only. -/
inductive Entry where
  | withSync
  | withAsync (setup : Setup)
  | beginTransaction (options : TransactionOptions)
  | beginAutoTransaction (options : TransactionOptions) (fate : Fate)

namespace World

def acquire (w : World ε) (k : ℕ) (owner : Owner) : World ε :=
  { w with
    lent := Function.update w.lent k true
    turns := Function.update w.turns k (w.turns k + 1)
    bookings := w.bookings ++ [.acquired ⟨k, w.turns k⟩ owner] }

/-- An entry point that has got connection `k` from the pool; the object it
returns, if any, becomes object `i`. The local variable of
`begin_auto_transaction` is in that place already. -/
def enter (w : World ε) (i k : ℕ) (entry : Entry) : World ε :=
  let handle : Handle := ⟨some ⟨k, w.turns k⟩, some k⟩
  match entry with
  | .withSync => (w.acquire k .executor).put i (.executor false handle)
  | .withAsync setup =>
      match setupConnection (w.links k).status setup with
      | .ok _ => (w.acquire k .executor).put i (.executor true handle)
      -- the constructor throws; `holder_` goes with the members, without `reset()`
      | .error _ => w.acquire k .nobody
  | .beginTransaction options =>
      (w.acquire k .transaction).put i (.transaction false ⟨handle, options, .idle⟩)
  | .beginAutoTransaction options fate =>
      let tx : Transaction := ⟨handle, options, .idle⟩
      let (w', tx', result) :=
        ((w.acquire k .transaction).put i (.transaction true tx)).begin tx fate
      if result.toBool then w'.put i (.transaction true tx')
      else (w'.destroyTransaction tx' fate).drop i

end World

/-! ### Steps -/

/-- Objects and savepoints are named by numbers, which say where they live.
`execute` is a query through `with_sync` of a transaction, `elsewhere` one of
anybody else who has the connection in hand: an executor, whether it holds the
connection or was made by a transaction, or the cleanup on return. -/
inductive Action (ε : Type*) where
  | enter (i : ℕ) (entry : Entry) (acquired : Option ℕ)
  | begin (i : ℕ) (fate : Fate)
  | commit (i : ℕ) (fate : Fate)
  | rollback (i : ℕ) (fate : Fate)
  | execute (i : ℕ) (effect : ε) (fate : Fate)
  | elsewhere (k : ℕ) (effect : ε) (fate : Fate)
  | moveConstruct (i j : ℕ)
  | moveAssign (i j : ℕ)
  | destroy (i : ℕ) (fate : Fate)
  | savepoint (i s : ℕ) (name : String) (fate : Fate)
  | savepointRollback (s : ℕ) (fate : Fate)
  | savepointRelease (s : ℕ) (fate : Fate)
  | savepointMoveConstruct (s t : ℕ)
  | savepointMoveAssign (s t : ℕ) (fate : Fate)
  | savepointDestroy (s : ℕ) (fate : Fate)
  | breakLink (k : ℕ)
  | destroyPool

/-- `none` where the action makes no sense: there is no such object, or its place
is taken. Moves are from the first number to the second. -/
def step (w : World ε) : Action ε → Option (World ε)
  | .enter i entry acquired =>
      match w.objects i, acquired with
      | some _, _ => none
      -- PoolExhausted
      | none, none => some w
      | none, some k => if w.poolAlive ∧ w.lent k = false then some (w.enter i k entry) else none
  | .begin i fate =>
      match w.objects i with
      | some (.transaction false tx) =>
          let (w', tx', _) := w.begin tx fate
          some (w'.put i (.transaction false tx'))
      | _ => none
  | .commit i fate =>
      match w.objects i with
      | some (.transaction auto tx) =>
          let (w', tx', _) := w.commit tx fate
          some (w'.put i (.transaction auto tx'))
      | _ => none
  | .rollback i fate =>
      match w.objects i with
      | some (.transaction false tx) =>
          let (w', tx', _) := w.rollback tx fate
          some (w'.put i (.transaction false tx'))
      | _ => none
  | .execute i effect fate =>
      match w.objects i with
      | some (.transaction _ tx) => some (w.withSync tx effect fate).1
      | _ => none
  | .elsewhere k effect fate => some (w.execute none (some k) (.command (.query effect)) fate).1
  | .moveConstruct i j =>
      match w.objects i, w.objects j with
      | some c, none => some ((w.put i c.movedFrom).put j c)
      | _, _ => none
  | .moveAssign i j =>
      match w.objects i, w.objects j with
      | some c, some d =>
          if c.sameClass d then
            if i = j then some w
            else some (((w.letGo d.handle.holder).put i c.movedFrom).put j c)
          else none
      | _, _ => none
  | .destroy i fate =>
      match w.objects i with
      | some c => some ((w.destroy c fate).drop i)
      | none => none
  | .savepoint i s name fate =>
      match w.objects i, w.savepoints s with
      | some (.transaction _ tx), none =>
          match w.savepoint tx name fate with
          | (w', .ok sp) => some (w'.putSavepoint s sp)
          | (w', .error _) => some w'
      | _, _ => none
  | .savepointRollback s fate =>
      match w.savepoints s with
      | some sp => some (w.savepointRollback sp fate).1
      | none => none
  | .savepointRelease s fate =>
      match w.savepoints s with
      | some sp =>
          let (w', sp', _) := w.savepointRelease sp fate
          some (w'.putSavepoint s sp')
      | none => none
  | .savepointMoveConstruct s t =>
      match w.savepoints s, w.savepoints t with
      | some sp, none => some ((w.putSavepoint s sp.movedFrom).putSavepoint t sp)
      | _, _ => none
  | .savepointMoveAssign s t fate =>
      match w.savepoints s, w.savepoints t with
      | some sp, some old =>
          if s = t then some w
          else
            some (((w.savepointRelease old fate).1.putSavepoint s sp.movedFrom).putSavepoint t sp)
      | _, _ => none
  | .savepointDestroy s fate =>
      match w.savepoints s with
      | some sp => some ((w.savepointRelease sp fate).1.dropSavepoint s)
      | none => none
  | .breakLink k => some { w with links := Function.update w.links k (w.links k).broken }
  | .destroyPool => some { w with poolAlive := false, links := fun k => (w.links k).broken }

end Demiplane.Postgres.Capabilities

import Demiplane.Transition.Run
import Demiplane.Postgres.Capabilities.World
import Demiplane.Postgres.LockFree.ConnectionPool

/-!
`SyncExecutor::execute_impl` and `AsyncExecutor::execute_impl`, and what an
`AsyncExecutor` leaves on the connection that it returns to the pool.

libpq hands out the results of a command one by one and null behind the last of
them; until then the command is unread. How the calls of libpq and the waits on
the socket come out is up to the environment, and so a loop of the executor goes
over the list of its outcomes. A list that ends before the loop does is a
coroutine that is still waiting.
-/

namespace Demiplane.Postgres.Executors

open Errors Capabilities LockFree Transition

variable {ρ : Type*}

/-! ### Connections -/

/-- A result with the rows in it. -/
structure Reply (ρ : Type*) where
  rows : ρ
  result : PGresult
  deriving DecidableEq, Repr

/-- `process_result`; the `ResultBlock` of a success is the result itself. -/
def processReply (reply : Reply ρ) : Except ErrorContext (Reply ρ) :=
  (processResult reply.result).map fun _ => reply

/-- `unread` has the commands that have been sent and not been read to the end, each with
the results that are still to come. -/
structure PGconn (ρ : Type*) where
  status : ConnStatusType
  socket : ℤ
  errorMessage : String
  unread : List (List (Reply ρ))

namespace PGconn

/-- `PQgetResult`. -/
def getResult (c : PGconn ρ) : Option (Reply ρ) × PGconn ρ :=
  match c.unread with
  | [] => (none, c)
  | [] :: more => (none, { c with unread := more })
  | (reply :: replies) :: more => (some reply, { c with unread := replies :: more })

/-- `PQsendQuery` and `PQsendQueryParams` where they succeed. -/
def send (c : PGconn ρ) (replies : List (Reply ρ)) : PGconn ρ :=
  { c with unread := c.unread ++ [replies] }

/-- `PQexec` and `PQexecParams` read what is unread before they send the command, and
return the last of its results. -/
def exec (c : PGconn ρ) (replies : List (Reply ρ)) : PGconn ρ × Option (Reply ρ) :=
  ({ c with unread := [] }, replies.getLast?)

/-- The results that are left of the command that is read next. -/
def left (c : PGconn ρ) : ℕ := (c.unread.headD []).length

theorem left_getResult {c c' : PGconn ρ} {reply : Reply ρ} (h : c.getResult = (some reply, c')) :
    c'.left < c.left := by
  obtain ⟨status, socket, errorMessage, unread⟩ := c
  rcases unread with _ | ⟨_ | ⟨reply', replies⟩, more⟩
  · cases h
  · cases h
  · cases h
    exact Nat.lt_succ_self _

/-- `while (PGresult* extra = PQgetResult(conn_)) PQclear(extra);` -/
def drain (c : PGconn ρ) : PGconn ρ :=
  match _h : c.getResult with
  | (some _, c') => drain c'
  | (none, c') => c'
termination_by c.left
decreasing_by exact left_getResult _h

end PGconn

/-! ### The synchronous executor -/

/-- `SyncExecutor::execute_impl`; `replies` is what the server answers with. -/
def syncExecute (c : Option (PGconn ρ)) (replies : List (Reply ρ)) :
    Except ErrorContext (Reply ρ) × Option (PGconn ρ) :=
  match c with
  | none => (.error (.ofCode (checkConnection none)), none)
  | some c =>
      if (checkConnection (some c.status)).isSuccess then
        match c.exec replies with
        | (c', none) => (.error (extractConnectionError (some c'.status) c'.errorMessage), some c')
        | (c', some reply) => (processReply reply, some c')
      else (.error (.ofCode (checkConnection (some c.status))), some c)

/-! ### The asynchronous executor -/

/-- What `PQflush` returns, and where it asks to wait what becomes of the wait. -/
inductive FlushEvent where
  | done
  | failed
  | wait (ec : Option String)
  deriving DecidableEq, Repr

/-- One turn of `async_consume_until_ready`: the wait fails, `PQconsumeInput` fails, or
`PQisBusy` says whether another turn is needed. -/
inductive ReadEvent where
  | waitFailed (ec : String)
  | consumeFailed
  | busy
  | ready
  deriving DecidableEq, Repr

/-- How the calls of one `execute_impl` come out; `sent` has the results of the command,
none if it could not be sent. -/
structure Call (ρ : Type*) where
  sent : Option (List (Reply ρ))
  flushes : List FlushEvent
  reads : List ReadEvent

/-- `none` while the loop goes on, and then the error that it returns with. -/
def asyncFlush (c : PGconn ρ) : List FlushEvent → Option (Option ErrorContext)
  | [] => none
  | .done :: _ => some none
  | .failed :: _ => some (some (extractConnectionError (some c.status) c.errorMessage))
  | .wait (some ec) :: _ =>
      some (some { ErrorContext.ofCode (.server .runtimeError) with
        message := "Socket write wait failed"
        detail := ec })
  | .wait none :: flushes => asyncFlush c flushes

def asyncConsumeUntilReady (c : PGconn ρ) : List ReadEvent → Option (Option ErrorContext)
  | [] => none
  | .waitFailed ec :: _ =>
      some (some { ErrorContext.ofCode (.server .runtimeError) with
        message := "Socket read wait failed"
        detail := ec })
  | .consumeFailed :: _ => some (some (extractConnectionError (some c.status) c.errorMessage))
  | .ready :: _ => some none
  | .busy :: reads => asyncConsumeUntilReady c reads

def collectSingleResult (c : PGconn ρ) : Except ErrorContext (Reply ρ) × PGconn ρ :=
  match c.getResult with
  | (none, c') =>
      (.error { ErrorContext.ofCode (.client .invalidArgument) with
        message := "No result returned from query" }, c')
  | (some reply, c') => (processReply reply, c'.drain)

/-- `socket` says whether there is a descriptor that is open; `holder` is a slot. -/
structure AsyncExecutor where
  conn : Option Conn
  socket : Bool
  cachedSocketFd : ℤ
  holder : Option ℕ
  deriving DecidableEq, Repr

namespace AsyncExecutor

/-- `validate_state`: the error, or the connection. -/
def validateState (x : AsyncExecutor) (c : Option (PGconn ρ)) : Except ErrorContext (PGconn ρ) :=
  match c with
  | none =>
      .error { ErrorContext.ofCode (.client .notConnected) with message := "Connection is null" }
  | some c =>
      if ¬(checkConnection (some c.status)).isSuccess then
        .error (extractConnectionError (some c.status) c.errorMessage)
      else if ¬x.socket then
        .error { ErrorContext.ofCode (.client .notConnected) with
          message := "Socket descriptor not available" }
      else if c.socket ≠ x.cachedSocketFd then
        .error { ErrorContext.ofCode (.client .invalidState) with
          message := "Connection was reset (socket fd changed)"
          detail := "Expected fd " ++ toString x.cachedSocketFd ++ ", got " ++ toString c.socket }
      else .ok c

/-- `execute_impl` behind a command that has been sent. -/
def awaitReply (c : PGconn ρ) (call : Call ρ) :
    Option (Except ErrorContext (Reply ρ) × PGconn ρ) :=
  (asyncFlush c call.flushes).bind fun
    | some error => some (.error error, c)
    | none =>
        (asyncConsumeUntilReady c call.reads).map fun
          | some error => (.error error, c)
          | none => collectSingleResult c

/-- `execute_impl`; `none` while the coroutine is waiting. -/
def executeImpl (x : AsyncExecutor) (c : Option (PGconn ρ)) (call : Call ρ) :
    Option (Except ErrorContext (Reply ρ) × Option (PGconn ρ)) :=
  match x.validateState c with
  | .error error => some (.error error, c)
  | .ok c =>
      match call.sent with
      | none => some (.error (extractConnectionError (some c.status) c.errorMessage), some c)
      | some replies => (awaitReply (c.send replies) call).map fun r => (r.1, some r.2)

/-- What a move leaves behind, and an executor without a connection. -/
def empty : AsyncExecutor := ⟨none, false, -1, none⟩

end AsyncExecutor

/-! ### Executors and slots -/

/-- Connections, the slots of a pool that still exist, and executors by the places where
they live. -/
structure World (ρ : Type*) where
  conns : Conn → PGconn ρ
  slots : ℕ → Option SlotHolder
  executors : ℕ → Option AsyncExecutor

/-- `PQstatus(conn_) == CONNECTION_OK` for the connection of a slot. -/
def World.healthy (w : World ρ) (slot : SlotHolder) : Bool :=
  slot.conn.any fun c => (w.conns c).status = .ok

/-- `run_cleanup_sql` sends a query. -/
def World.sendsCleanup (w : World ρ) (slot : SlotHolder) : Bool :=
  w.healthy slot && slot.cleanupSql.any (· ≠ "")

namespace World

def setConn (w : World ρ) (c : Conn) (conn : PGconn ρ) : World ρ :=
  { w with conns := Function.update w.conns c conn }

def setSlot (w : World ρ) (i : ℕ) (slot : Option SlotHolder) : World ρ :=
  { w with slots := Function.update w.slots i slot }

def setExecutor (w : World ρ) (x : ℕ) (executor : Option AsyncExecutor) : World ρ :=
  { w with executors := Function.update w.executors x executor }

/-- `SlotHolder::reset`; `answered` is what becomes of the cleanup query. -/
def resetSlot (w : World ρ) (i : ℕ) (slot : SlotHolder) (answered : Bool) : World ρ :=
  let (slot', ok) := slot.runCleanupSql (w.healthy slot) answered
  let w' :=
    match slot.conn with
    | some c => if w.sendsCleanup slot then w.setConn c ((w.conns c).exec []).1 else w
    | none => w
  w'.setSlot i (some { slot' with status := if ok then .free else .dead })

/-- `if (auto live = holder_.lock()) live->reset();` -/
def letGo (w : World ρ) (holder : Option ℕ) (answered : Bool) : World ρ :=
  match holder with
  | none => w
  | some i =>
      match w.slots i with
      | none => w
      | some slot => w.resetSlot i slot answered

/-- `AsyncExecutor(holder, executor)`; `none` if the constructor throws. -/
def makeExecutor (w : World ρ) (i : ℕ) (setup : Setup) : Option AsyncExecutor :=
  match (w.slots i).bind (·.conn) with
  | none => some { AsyncExecutor.empty with holder := some i }
  | some c =>
      match setupConnection (w.conns c).status { setup with socket := (w.conns c).socket } with
      | .ok fd => some ⟨some c, true, fd, some i⟩
      | .error _ => none

/-- `execute_impl` of the executor, on its connection. -/
def execute (w : World ρ) (x : AsyncExecutor) (call : Call ρ) : Option (World ρ) :=
  match x.conn with
  | none => some w
  | some c =>
      (x.executeImpl (some (w.conns c)) call).map fun r =>
        match r.2 with
        | some conn => w.setConn c conn
        | none => w

end World

/-- `acquire` and `expire` are the pool's, `lose` the network's. Moves are from `x` to `y`. -/
inductive Action (ρ : Type*) where
  | acquire (i : ℕ)
  | expire (i : ℕ)
  | lose (c : Conn)
  | construct (x i : ℕ) (setup : Setup)
  | doCleanup (x : ℕ) (query : CleanupQuery)
  | execute (x : ℕ) (call : Call ρ)
  | moveConstruct (x y : ℕ)
  | moveAssign (x y : ℕ) (answered : Bool)
  | destroy (x : ℕ) (answered : Bool)

/-- `none` where the action makes no sense, or its call has not returned. -/
def step (w : World ρ) : Action ρ → Option (World ρ)
  | .acquire i =>
      (w.slots i).bind fun slot =>
        if slot.status = .free then
          some (w.setSlot i (some { slot with status := .used }))
        else none
  | .expire i => some (w.setSlot i none)
  | .lose c => some (w.setConn c { w.conns c with status := .bad })
  | .construct x i setup =>
      if w.executors x = none ∧ (w.slots i).any (·.status = .used) then
        (w.makeExecutor i setup).map fun executor => w.setExecutor x (some executor)
      else none
  | .doCleanup x query =>
      (w.executors x).map fun executor =>
        match executor.holder with
        | none => w
        | some i => w.setSlot i ((w.slots i).map (·.setCleanup query))
  | .execute x call => (w.executors x).bind fun executor => w.execute executor call
  | .moveConstruct x y =>
      (w.executors x).bind fun executor =>
        if w.executors y = none then
          some ((w.setExecutor x (some .empty)).setExecutor y (some executor))
        else none
  | .moveAssign x y answered =>
      (w.executors x).bind fun executor =>
        (w.executors y).map fun old =>
          if x = y then w
          else
            ((w.letGo old.holder answered).setExecutor x (some .empty)).setExecutor y
              (some executor)
  | .destroy x answered =>
      (w.executors x).map fun executor =>
        (w.letGo executor.holder answered).setExecutor x none

/-! ### One call -/

variable {c : PGconn ρ}

theorem PGconn.drain_nil (h : c.unread = []) : c.drain = c := by
  have hget : c.getResult = (none, c) := by simp [PGconn.getResult, h]
  rw [PGconn.drain]
  split
  next hsome => rw [hget] at hsome; cases hsome
  next hnone => rw [hget] at hnone; cases hnone; rfl

theorem PGconn.drain_eq (c : PGconn ρ) : c.drain = { c with unread := c.unread.tail } := by
  obtain ⟨status, socket, errorMessage, unread⟩ := c
  rcases unread with _ | ⟨replies, more⟩
  · exact PGconn.drain_nil rfl
  · induction replies with
    | nil =>
      rw [PGconn.drain]
      rfl
    | cons reply replies ih =>
      rw [PGconn.drain]
      exact ih

/-- Whatever the results are, none of the command is left unread. -/
theorem collectSingleResult_snd (c : PGconn ρ) :
    (collectSingleResult c).2 = { c with unread := c.unread.tail } := by
  obtain ⟨status, socket, errorMessage, unread⟩ := c
  rcases unread with _ | ⟨_ | ⟨reply, replies⟩, more⟩
  · rfl
  · rfl
  · exact PGconn.drain_eq _

/-- `PQflush` empties the buffer, and the waits before it succeed. -/
def flushed : List FlushEvent → Bool
  | .done :: _ => true
  | .wait none :: flushes => flushed flushes
  | _ => false

/-- The results arrive, and the waits for them succeed. -/
def consumed : List ReadEvent → Bool
  | .ready :: _ => true
  | .busy :: reads => consumed reads
  | _ => false

/-- If the command is sent then it is flushed and its results arrive. -/
def Call.Completes (call : Call ρ) : Prop :=
  call.sent = none ∨ flushed call.flushes = true ∧ consumed call.reads = true

theorem asyncFlush_eq (c : PGconn ρ) (flushes : List FlushEvent) :
    asyncFlush c flushes = some none ↔ flushed flushes = true := by
  induction flushes with
  | nil => simp [asyncFlush, flushed]
  | cons event flushes ih =>
    rcases event with _ | _ | _ | ec
    · simp [asyncFlush, flushed]
    · simp [asyncFlush, flushed]
    · exact ih
    · simp [asyncFlush, flushed]

theorem asyncConsumeUntilReady_eq (c : PGconn ρ) (reads : List ReadEvent) :
    asyncConsumeUntilReady c reads = some none ↔ consumed reads = true := by
  induction reads with
  | nil => simp [asyncConsumeUntilReady, consumed]
  | cons event reads ih =>
    cases event with
    | busy => exact ih
    | _ => simp [asyncConsumeUntilReady, consumed]

variable {call : Call ρ}

theorem awaitReply_of_completes (c : PGconn ρ)
    (h : flushed call.flushes = true ∧ consumed call.reads = true) :
    AsyncExecutor.awaitReply c call = some (collectSingleResult c) := by
  rw [AsyncExecutor.awaitReply, (asyncFlush_eq c _).mpr h.1]
  simp [(asyncConsumeUntilReady_eq c _).mpr h.2]

/-- A call that returns early leaves the connection as it was behind the send. -/
theorem awaitReply_of_not_completes
    {r : Except ErrorContext (Reply ρ) × PGconn ρ}
    (h : ¬(flushed call.flushes = true ∧ consumed call.reads = true))
    (hr : AsyncExecutor.awaitReply c call = some r) : r.2 = c := by
  rw [AsyncExecutor.awaitReply] at hr
  obtain ⟨flush, hflush, hr⟩ := Option.bind_eq_some_iff.mp hr
  cases flush with
  | some error =>
    cases hr
    rfl
  | none =>
    obtain ⟨consume, hconsume, rfl⟩ := Option.map_eq_some_iff.mp hr
    cases consume with
    | some error => rfl
    | none =>
      exact absurd ⟨(asyncFlush_eq c _).mp hflush, (asyncConsumeUntilReady_eq c _).mp hconsume⟩ h

/-! ### Both executors on the same results -/

/-- The results of a query string: nothing comes after an error. -/
structure Replies (ρ : Type*) where
  list : List (Reply ρ)
  nonempty : list ≠ []
  noCopy : ∀ reply ∈ list, reply.result.status ∉
    [ExecStatusType.copyIn, ExecStatusType.copyOut, ExecStatusType.copyBoth]
  errorLast : ∀ reply ∈ list.dropLast, extractError (some reply.result) = none

theorem processReply_of_success {reply : Reply ρ}
    (h : extractError (some reply.result) = none) : processReply reply = .ok reply := by
  rw [processReply, processResult, h]
  rfl

theorem processReply_eq_ok {reply other : Reply ρ} (h : processReply reply = .ok other) :
    reply = other := by
  rw [processReply] at h
  cases hresult : processResult reply.result with
  | error error =>
    rw [hresult] at h
    cases h
  | ok result =>
    rw [hresult] at h
    exact Except.ok.inj h

/-- Unless there is one result only, the first one is a success. -/
theorem Replies.processReply_head (replies : Replies ρ) :
    replies.list.head replies.nonempty = replies.list.getLast replies.nonempty ∨
      processReply (replies.list.head replies.nonempty) =
        .ok (replies.list.head replies.nonempty) := by
  obtain ⟨list, hne, hcopy, herror⟩ := replies
  rcases list with _ | ⟨first, _ | ⟨second, rest⟩⟩
  · exact absurd rfl hne
  · exact .inl rfl
  · exact .inr (processReply_of_success (herror first (by simp)))

theorem syncExecute_fst (h : (checkConnection (some c.status)).isSuccess = true)
    (replies : Replies ρ) : (syncExecute (some c) replies.list).1 =
      processReply (replies.list.getLast replies.nonempty) := by
  simp [syncExecute, h, PGconn.exec, List.getLast?_eq_some_getLast replies.nonempty]

theorem validateState_eq_ok {x : AsyncExecutor} {c c' : PGconn ρ}
    (h : x.validateState (some c) = .ok c') :
    c' = c ∧ (checkConnection (some c.status)).isSuccess = true ∧ x.socket = true ∧
      c.socket = x.cachedSocketFd := by
  unfold AsyncExecutor.validateState at h
  dsimp only at h
  split_ifs at h with hstatus hsocket hfd
  cases h
  exact ⟨rfl, by simpa using hstatus, by simpa using hsocket, by simpa using hfd⟩

theorem executeImpl_fst {x : AsyncExecutor}
    (hvalid : x.validateState (some c) = .ok c) (hidle : c.unread = [])
    (replies : Replies ρ) (hsent : call.sent = some replies.list)
    (hcall : flushed call.flushes = true ∧ consumed call.reads = true) :
    (x.executeImpl (some c) call).map Prod.fst =
      some (processReply (replies.list.head replies.nonempty)) := by
  obtain ⟨list, hne, hcopy, herror⟩ := replies
  obtain ⟨first, rest, rfl⟩ := List.exists_cons_of_ne_nil hne
  simp only at hsent
  simp [AsyncExecutor.executeImpl, hvalid, hsent, awaitReply_of_completes _ hcall,
    collectSingleResult, PGconn.getResult, PGconn.send, hidle]

/-- Where everything succeeds on the way, the two executors agree exactly if the first
result of the query is its last one too. -/
theorem sync_async_agree_iff {x : AsyncExecutor} {c : PGconn ρ}
    (hvalid : x.validateState (some c) = .ok c) (hidle : c.unread = []) {call : Call ρ}
    (replies : Replies ρ) (hsent : call.sent = some replies.list)
    (hcall : flushed call.flushes = true ∧ consumed call.reads = true) :
    (x.executeImpl (some c) call).map Prod.fst = some (syncExecute (some c) replies.list).1 ↔
      replies.list.head replies.nonempty = replies.list.getLast replies.nonempty := by
  rw [executeImpl_fst hvalid hidle replies hsent hcall,
    syncExecute_fst (validateState_eq_ok hvalid).2.1 replies, Option.some_inj]
  constructor
  · intro h
    rcases replies.processReply_head with heq | hok
    · exact heq
    · rw [hok] at h
      exact (processReply_eq_ok h.symm).symm
  · intro h
    rw [h]

/-- One row, as `SELECT 1` returns it. -/
def oneRow : Reply ℕ := ⟨1, .tuplesOk, none, "", none, none, none, none⟩

/-- What becomes of `SELECT 1 / 0`. -/
def divisionByZero : Reply ℕ :=
  ⟨0, .fatalError, some "22012", "division by zero", none, none, none, none⟩

/-- A connection between two commands, and an executor on it. -/
def idle : PGconn ℕ := ⟨.ok, 5, "", []⟩

def onIdle : AsyncExecutor := ⟨some 0, true, 5, none⟩

/-- A call that has to wait once for the results of its command. -/
def answeredWith (replies : List (Reply ℕ)) : Call ℕ := ⟨some replies, [.done], [.busy, .ready]⟩

/-- The results of `SELECT 1; SET jit = off; SELECT 1`. -/
def sameRowAgain : Replies ℕ :=
  ⟨[oneRow, ⟨0, .commandOk, none, "", none, none, none, none⟩, oneRow], by decide, by decide,
    by decide⟩

theorem sync_async_agree_sameRowAgain :
    (onIdle.executeImpl (some idle) (answeredWith sameRowAgain.list)).map Prod.fst =
      some (syncExecute (some idle) sameRowAgain.list).1 :=
  (sync_async_agree_iff (x := onIdle) (c := idle) rfl rfl sameRowAgain rfl ⟨rfl, rfl⟩).mpr rfl

/-- The results of `SELECT 1; SELECT 1 / 0`. -/
def successThenError : Replies ℕ := ⟨[oneRow, divisionByZero], by decide, by decide, by decide⟩

/-- They are an error for the one executor and a success for the other. -/
theorem error_behind_success_dropped :
    (onIdle.executeImpl (some idle) (answeredWith successThenError.list)).map Prod.fst =
        some (.ok oneRow) ∧
      (onIdle.executeImpl (some idle) (answeredWith successThenError.list)).map Prod.fst ≠
        some (syncExecute (some idle) successThenError.list).1 := by
  have hasync : (onIdle.executeImpl (some idle) (answeredWith successThenError.list)).map Prod.fst =
      some (processReply oneRow) :=
    executeImpl_fst (x := onIdle) (c := idle) rfl rfl successThenError rfl ⟨rfl, rfl⟩
  rw [hasync]
  exact ⟨rfl, by decide⟩

/-! ### An executor from its construction to its end -/

instance (call : Call ρ) : Decidable call.Completes :=
  inferInstanceAs (Decidable (call.sent = none ∨ _))

/-- What a call that returns leaves behind it. -/
structure Leaves (c c' : PGconn ρ) (n : ℕ) : Prop where
  status : c'.status = c.status
  socket : c'.socket = c.socket
  unread : c'.unread.length = c.unread.length + n

theorem executeImpl_leaves {x : AsyncExecutor}
    (hvalid : x.validateState (some c) = .ok c)
    {r : Except ErrorContext (Reply ρ) × Option (PGconn ρ)}
    (hr : x.executeImpl (some c) call = some r) :
    ∃ c', r.2 = some c' ∧ Leaves c c' (if call.Completes then 0 else 1) := by
  rw [AsyncExecutor.executeImpl, hvalid] at hr
  dsimp only at hr
  cases hsent : call.sent with
  | none =>
    rw [hsent] at hr
    cases hr
    have hcompletes : call.Completes := .inl hsent
    exact ⟨c, rfl, rfl, rfl, by simp [hcompletes]⟩
  | some replies =>
    rw [hsent] at hr
    obtain ⟨r', hr', rfl⟩ := Option.map_eq_some_iff.mp hr
    by_cases hcall : flushed call.flushes = true ∧ consumed call.reads = true
    · have hcompletes : call.Completes := .inr hcall
      rw [awaitReply_of_completes _ hcall] at hr'
      cases hr'
      refine ⟨_, rfl, ?_⟩
      rw [collectSingleResult_snd, if_pos hcompletes]
      exact ⟨rfl, rfl, by simp [PGconn.send]⟩
    · have hcompletes : ¬call.Completes := by simp [Call.Completes, hsent, hcall]
      rw [awaitReply_of_not_completes hcall hr', if_neg hcompletes]
      exact ⟨_, rfl, rfl, rfl, by simp [PGconn.send]⟩

/-- The slot is lent with a connection between two commands, and has no cleanup query. -/
structure Lent (w : World ρ) (i : ℕ) (c : Conn) : Prop where
  slot : w.slots i = some ⟨.used, some c, none⟩
  status : (w.conns c).status = .ok
  unread : (w.conns c).unread = []

/-- An executor has the connection of a slot, with `n` commands unread. -/
structure Holding (w : World ρ) (x i : ℕ) (c : Conn) (n : ℕ) : Prop where
  executor : w.executors x = some ⟨some c, true, (w.conns c).socket, some i⟩
  slot : w.slots i = some ⟨.used, some c, none⟩
  status : (w.conns c).status = .ok
  unread : (w.conns c).unread.length = n

theorem setupConnection_eq_ok {status : ConnStatusType} {setup : Setup} {fd : ℤ}
    (h : setupConnection status setup = .ok fd) : fd = setup.socket := by
  unfold setupConnection at h
  split_ifs at h
  cases hdescriptor : setup.descriptor with
  | error text =>
    rw [hdescriptor] at h
    cases h
  | ok _ =>
    rw [hdescriptor] at h
    exact (Except.ok.inj h).symm

theorem Lent.construct {w w' : World ρ} {i x : ℕ} {c : Conn} (h : Lent w i c) {setup : Setup}
    (hstep : step w (.construct x i setup) = some w') : Holding w' x i c 0 := by
  simp only [step] at hstep
  split_ifs at hstep with hfree
  obtain ⟨executor, hmake, rfl⟩ := Option.map_eq_some_iff.mp hstep
  have hexecutor : executor = ⟨some c, true, (w.conns c).socket, some i⟩ := by
    simp only [World.makeExecutor, h.slot, Option.bind_some] at hmake
    split at hmake
    next fd hfd =>
      cases hmake
      rw [setupConnection_eq_ok hfd]
    next => cases hmake
  subst hexecutor
  exact ⟨by simp [World.setExecutor], h.slot, h.status, by simp [World.setExecutor, h.unread]⟩

theorem Holding.validateState {w : World ρ} {x i : ℕ} {c : Conn} {n : ℕ}
    (h : Holding w x i c n) :
    AsyncExecutor.validateState ⟨some c, true, (w.conns c).socket, some i⟩ (some (w.conns c)) =
      .ok (w.conns c) := by
  have hok : (checkConnection (some (w.conns c).status)).isSuccess = true := by
    rw [h.status]
    rfl
  simp [AsyncExecutor.validateState, hok]

theorem Holding.execute {w w' : World ρ} {x i : ℕ} {c : Conn} {n : ℕ} (h : Holding w x i c n)
    (hstep : step w (.execute x call) = some w') :
    Holding w' x i c (n + if call.Completes then 0 else 1) := by
  simp only [step, h.executor, Option.bind_some, World.execute] at hstep
  obtain ⟨r, hr, rfl⟩ := Option.map_eq_some_iff.mp hstep
  obtain ⟨c', hc', hleaves⟩ := executeImpl_leaves h.validateState hr
  rw [hc']
  refine ⟨?_, h.slot, ?_, ?_⟩
  · simp [World.setConn, h.executor, hleaves.socket]
  · simp [World.setConn, hleaves.status, h.status]
  · simp [World.setConn, hleaves.unread, h.unread]

/-- Every call that does not complete leaves one more command unread. -/
theorem Holding.run {w w' : World ρ} {x i : ℕ} {c : Conn} {n : ℕ} (h : Holding w x i c n)
    {calls : List (Call ρ)} (hrun : run step w (calls.map (.execute x)) = some w') :
    Holding w' x i c (n + calls.countP fun call => ¬call.Completes) := by
  induction calls generalizing w n with
  | nil =>
    cases hrun
    exact h
  | cons call calls ih =>
    obtain ⟨u, hu, hrun⟩ := Option.bind_eq_some_iff.mp hrun
    have hrest := ih (h.execute hu) hrun
    by_cases hcall : call.Completes
    · simpa [hcall] using hrest
    · simpa [hcall, Nat.add_assoc, Nat.add_comm 1] using hrest

/-- The executor is destroyed, or another one is moved into it. -/
def Action.LetsGo (x : ℕ) : Action ρ → Prop
  | .destroy z _ => z = x
  | .moveAssign y z _ => z = x ∧ y ≠ x
  | _ => False

theorem Holding.letGo {w : World ρ} {x i : ℕ} {c : Conn} {n : ℕ} (h : Holding w x i c n)
    (answered : Bool) : w.letGo (some i) answered = w.setSlot i (some ⟨.free, some c, none⟩) := by
  have hhealthy : w.healthy ⟨.used, some c, none⟩ = true := by simp [World.healthy, h.status]
  simp [World.letGo, h.slot, World.resetSlot, World.sendsCleanup, SlotHolder.runCleanupSql,
    hhealthy]

/-- The slot is lent again, with the commands that were unread. -/
theorem Holding.finish {w t : World ρ} {x i : ℕ} {c : Conn} {n : ℕ} (h : Holding w x i c n)
    {finish : Action ρ} (hfinish : finish.LetsGo x) (hstep : step w finish = some t) :
    t.slots i = some ⟨.free, some c, none⟩ ∧ (t.conns c).unread.length = n := by
  cases finish with
  | destroy z answered =>
    obtain rfl : z = x := hfinish
    simp only [step, h.executor, Option.map_some, h.letGo, Option.some_inj] at hstep
    subst hstep
    exact ⟨by simp [World.setExecutor, World.setSlot], h.unread⟩
  | moveAssign y z answered =>
    obtain ⟨rfl, hne⟩ : z = x ∧ y ≠ x := hfinish
    obtain ⟨executor, -, hstep⟩ := Option.bind_eq_some_iff.mp hstep
    simp only [h.executor, Option.map_some, if_neg hne, h.letGo, Option.some_inj] at hstep
    subst hstep
    exact ⟨by simp [World.setExecutor, World.setSlot], h.unread⟩
  | _ => exact hfinish.elim

/-- An executor leaves nothing unread on the connection that it gives back exactly if all
commands that it sent got through to their results. -/
theorem given_back_read_iff {w t : World ρ} {i : ℕ} {c : Conn} (h : Lent w i c) {x : ℕ}
    {setup : Setup} (calls : List (Call ρ)) {finish : Action ρ}
    (hfinish : finish.LetsGo x)
    (hrun : run step w (.construct x i setup :: (calls.map (.execute x) ++ [finish])) = some t) :
    (t.slots i).map (·.status) = some .free ∧
      ((t.conns c).unread = [] ↔ ∀ call ∈ calls, call.Completes) := by
  obtain ⟨u, hu, hrun⟩ := Option.bind_eq_some_iff.mp hrun
  obtain ⟨v, hv, hlast⟩ := run_snoc.mp hrun
  obtain ⟨hslot, hunread⟩ := ((h.construct hu).run hv).finish hfinish hlast
  refine ⟨by rw [hslot]; rfl, ?_⟩
  rw [← List.length_eq_zero_iff, hunread, Nat.zero_add, List.countP_eq_zero]
  simp

/-- Slot 0 is lent with an idle connection. -/
def lentOut : World ℕ where
  conns := fun _ => idle
  slots := Function.update (fun _ => none) 0 (some ⟨.used, some 0, none⟩)
  executors := fun _ => none

def twoCalls : List (Call ℕ) := [answeredWith [oneRow], answeredWith [oneRow, divisionByZero]]

theorem given_back_read_two :
    ∃ t, run step lentOut (.construct 0 0 ⟨true, 0, .ok (), ""⟩ ::
        (twoCalls.map (.execute 0) ++ [.destroy 0 false])) = some t ∧
      (t.slots 0).map (·.status) = some .free ∧ (t.conns 0).unread = [] := by
  obtain ⟨t, ht⟩ : ∃ t, run step lentOut (.construct 0 0 ⟨true, 0, .ok (), ""⟩ ::
      (twoCalls.map (.execute 0) ++ [.destroy 0 false])) = some t :=
    Option.isSome_iff_exists.mp (by decide +kernel)
  obtain ⟨hfree, hread⟩ :=
    given_back_read_iff (w := lentOut) (c := 0) (x := 0) ⟨rfl, rfl, rfl⟩ twoCalls
      (show Action.LetsGo 0 (.destroy 0 false) from rfl) ht
  exact ⟨t, ht, hfree, hread.mpr (by decide)⟩

/-- A call that is cancelled while it waits for the results of its command. -/
def cancelled : Call ℕ := ⟨some [oneRow], [.done], [.waitFailed "Operation canceled"]⟩

theorem cancelled_call_unread :
    ∃ t, run step lentOut (.construct 0 0 ⟨true, 0, .ok (), ""⟩ ::
        ([cancelled].map (.execute 0) ++ [.destroy 0 false])) = some t ∧
      (t.slots 0).map (·.status) = some .free ∧ (t.conns 0).unread = [[oneRow]] :=
  ⟨_, rfl, rfl, rfl⟩

/-! ### Any number of executors -/

/-- An action that is not a call, or a call that gets through. -/
def Action.Completes : Action ρ → Prop
  | .execute _ call => call.Completes
  | _ => True

/-- No connection has a command unread. -/
def Quiet (w : World ρ) : Prop := ∀ c, (w.conns c).unread = []

theorem Quiet.setConn {w : World ρ} (h : Quiet w) (c : Conn) {conn : PGconn ρ}
    (hconn : conn.unread = []) : Quiet (w.setConn c conn) := by
  intro d
  by_cases hd : d = c
  · subst hd
    simpa [World.setConn] using hconn
  · simpa [World.setConn, hd] using h d

theorem Quiet.letGo {w : World ρ} (h : Quiet w) (holder : Option ℕ) (answered : Bool) :
    Quiet (w.letGo holder answered) := by
  unfold World.letGo
  split
  · exact h
  split
  · exact h
  next slot _ =>
    -- the slot does not matter, and the cleanup query reads what there is
    intro d
    simp only [World.resetSlot, World.setSlot]
    split
    next c _ =>
      split
      · exact h.setConn c rfl d
      · exact h d
    · exact h d

theorem Quiet.execute {w w' : World ρ} (h : Quiet w) {x : AsyncExecutor}
    (hcall : call.Completes) (hstep : w.execute x call = some w') : Quiet w' := by
  unfold World.execute at hstep
  split at hstep
  · cases hstep
    exact h
  next c _ =>
    obtain ⟨r, hr, rfl⟩ := Option.map_eq_some_iff.mp hstep
    cases hvalid : x.validateState (some (w.conns c)) with
    | error error =>
      rw [AsyncExecutor.executeImpl, hvalid] at hr
      cases hr
      exact h.setConn c (h c)
    | ok conn =>
      obtain rfl := (validateState_eq_ok hvalid).1
      obtain ⟨c', hc', hleaves⟩ := executeImpl_leaves hvalid hr
      rw [hc']
      have hunread := hleaves.unread
      rw [h c, if_pos hcall] at hunread
      exact h.setConn c (List.length_eq_zero_iff.mp hunread)

theorem Quiet.step {w w' : World ρ} (h : Quiet w) {a : Action ρ} (ha : a.Completes)
    (hstep : step w a = some w') : Quiet w' := by
  cases a with
  | acquire i =>
    obtain ⟨slot, -, hstep⟩ := Option.bind_eq_some_iff.mp hstep
    split_ifs at hstep
    cases hstep
    exact h
  | expire i =>
    cases hstep
    exact h
  | lose c =>
    cases hstep
    exact h.setConn c (h c)
  | construct x i setup =>
    simp only [Executors.step] at hstep
    split_ifs at hstep
    obtain ⟨executor, -, rfl⟩ := Option.map_eq_some_iff.mp hstep
    exact h
  | doCleanup x query =>
    obtain ⟨executor, -, rfl⟩ := Option.map_eq_some_iff.mp hstep
    split
    · exact h
    · exact h
  | execute x call =>
    obtain ⟨executor, -, hstep⟩ := Option.bind_eq_some_iff.mp hstep
    exact h.execute ha hstep
  | moveConstruct x y =>
    obtain ⟨executor, -, hstep⟩ := Option.bind_eq_some_iff.mp hstep
    split_ifs at hstep
    cases hstep
    exact h
  | moveAssign x y answered =>
    obtain ⟨executor, -, hstep⟩ := Option.bind_eq_some_iff.mp hstep
    obtain ⟨old, -, rfl⟩ := Option.map_eq_some_iff.mp hstep
    split_ifs
    · exact h
    · exact h.letGo old.holder answered
  | destroy x answered =>
    obtain ⟨executor, -, rfl⟩ := Option.map_eq_some_iff.mp hstep
    exact h.letGo executor.holder answered

/-- However the executors of a pool are made, moved and destroyed: while no call is cut
short, a borrower finds nothing unread. -/
theorem quiet_always {w t : World ρ} (h : Quiet w) {as : List (Action ρ)}
    (hrun : run Executors.step w as = some t)
    (hcalls : Guarded Executors.step (fun _ a => a.Completes) w as) :
    Always Executors.step Quiet w as :=
  always_of_guarded h (fun _ _ _ hquiet ha hstep => hquiet.step ha hstep) (fun _ hquiet => hquiet)
    hrun hcalls

end Demiplane.Postgres.Executors

import Mathlib.Data.List.Basic
import Mathlib.Logic.Function.Basic
import Mathlib.Tactic.Common
import Demiplane.Postgres.PoolConfig

/-!
`BlockingPool`: holders behind a mutex, and callers that want one. A step is a
critical section of the mutex, or something a call does outside of it: the
first load of `shutdown_`, an attempt to connect, the `post` of a completion
handler. Between two steps the mutex is free. Whether a connection attempt
succeeds, whether a released connection is still alive and when a timer
expires is up to the environment.

The four ways to acquire share their critical sections in the source, up to
how they return; here they are one function of the kind of the call.
-/

namespace Demiplane.Postgres

/-! ### State -/

/-- Holders by the order of their creation. -/
abbrev Holder := ℕ

/-- How a call acquires: `try_acquire()`, `acquire(timeout)` and `acquire()`,
`async_acquire` with a positive timeout and without. -/
inductive Kind where
  | tryAcquire
  | acquire (timed : Bool)
  | asyncAcquire (bounded : Bool)
  deriving DecidableEq

def Kind.isAsync : Kind → Bool
  | .asyncAcquire _ => true
  | _ => false

/-- Where a call stands. `waiting` is inside the wait on the condition
variable, with the `assigned` holder once `ready`. An asynchronous call is
`initiated` when the critical sections of `initiate_async_acquire` are over.
`holding` is the borrower of a holder, and `returned` is the end. -/
inductive Call where
  | idle
  | entered (k : Kind)
  | creating (k : Kind)
  | waiting (timed : Bool) (assigned : Option Holder)
  | initiated
  | holding (h : Holder)
  | returned
  deriving DecidableEq

/-- `std::variant<Waiter*, std::shared_ptr<AsyncWaiter>>`, by the call that
made the waiter. -/
inductive WaiterEntry where
  | sync (c : ℕ)
  | async (c : ℕ)
  deriving DecidableEq

inductive ErrorCode where
  | success
  | operationAborted
  | timedOut
  deriving DecidableEq

/-- A completion handler with what it will be called with. -/
structure Completion where
  call : ℕ
  ec : ErrorCode
  holder : Option Holder
  deriving DecidableEq

/-- Who posts a handler outside of the mutex. -/
inductive Poster where
  | initiate
  | timer
  | release
  deriving DecidableEq

/-- `shutdown()`: not called, before its critical section, posting the
handlers it has collected, returned. -/
inductive Closing where
  | idle
  | exchanged
  | posting (calls : List ℕ)
  | returned
  deriving DecidableEq

/-- A call that queues, and what it puts into the queue. -/
def Kind.parked : Kind → Call
  | .tryAcquire => .returned
  | .acquire timed => .waiting timed none
  | .asyncAcquire _ => .initiated

def Kind.waiter (c : ℕ) : Kind → List WaiterEntry
  | .tryAcquire => []
  | .acquire _ => [.sync c]
  | .asyncAcquire _ => [.async c]

/-- The pool with the calls in progress. `posts` are handlers on their way
from a critical section to `post`, `handlers` those posted and not run. -/
structure Pool where
  holders : List Holder
  free : List Holder
  waiters : List WaiterEntry
  created : ℕ
  isShutdown : Bool
  fresh : Holder
  calls : ℕ → Call
  claimed : ℕ → Bool
  armed : ℕ → Bool
  posts : List (Poster × Completion)
  handlers : List Completion
  closing : Closing

namespace Pool

/-- One attempt of the constructor. -/
def construct (st : Pool) (connected : Bool) : Pool :=
  if connected then
    { st with
      created := st.created + 1
      free := st.free ++ [st.fresh]
      holders := st.holders ++ [st.fresh]
      fresh := st.fresh + 1 }
  else st

def empty : Pool where
  holders := []
  free := []
  waiters := []
  created := 0
  isShutdown := false
  fresh := 0
  calls _ := .idle
  claimed _ := false
  armed _ := false
  posts := []
  handlers := []
  closing := .idle

/-- The constructor: `min_connections` attempts, `attempts` saying which of
them connect. -/
def start (cfg : PoolConfig.Valid) (attempts : ℕ → Bool) : Pool :=
  (List.range cfg.1.minConnections).foldl (fun st i => st.construct (attempts i)) empty

/-! ### Critical sections -/

def setCall (st : Pool) (c : ℕ) (call : Call) : Pool :=
  { st with calls := Function.update st.calls c call }

@[simp] theorem calls_setCall (st : Pool) (c : ℕ) (call : Call) :
    (st.setCall c call).calls = Function.update st.calls c call := rfl

/-- The call gets a holder: it returns with it, or posts its handler. -/
def deliver (st : Pool) (k : Kind) (c : ℕ) (h : Holder) : Pool :=
  { st with
    calls := Function.update st.calls c (if k.isAsync then .initiated else .holding h)
    posts := st.posts ++ if k.isAsync then [(.initiate, ⟨c, .success, some h⟩)] else [] }

/-- The call finds `shutdown_` set. -/
def abort (st : Pool) (k : Kind) (c : ℕ) : Pool :=
  { st with
    calls := Function.update st.calls c (if k.isAsync then .initiated else .returned)
    posts := st.posts ++ if k.isAsync then [(.initiate, ⟨c, .operationAborted, none⟩)] else [] }

/-- No holder to be had now: `try_acquire` gives up, the others queue. -/
def enqueue (st : Pool) (k : Kind) (c : ℕ) : Pool :=
  { st with
    calls := Function.update st.calls c k.parked
    waiters := st.waiters ++ k.waiter c
    armed := Function.update st.armed c (k = .asyncAcquire true) }

/-- The first critical section of a call. -/
def lock (cfg : PoolConfig.Valid) (st : Pool) (k : Kind) (c : ℕ) : Pool :=
  if st.isShutdown then st.abort k c
  else
    match st.free with
    | h :: rest => { st with free := rest }.deliver k c h
    | [] =>
        if st.created < cfg.1.capacity then st.setCall c (.creating k) else st.enqueue k c

/-- The second critical section, after `try_create_holder`. Only
`initiate_async_acquire` looks at `shutdown_` again. -/
def relock (st : Pool) (k : Kind) (c : ℕ) (connected : Bool) : Pool :=
  if k.isAsync ∧ st.isShutdown then st.abort k c
  else if connected then
    { st with
      created := st.created + 1
      holders := st.holders ++ [st.fresh]
      fresh := st.fresh + 1 }.deliver k c st.fresh
  else st.enqueue k c

/-- A waiter gives up: `shutdown_` is set or its timeout has expired. -/
def leave (st : Pool) (c : ℕ) : Pool :=
  { st.setCall c .returned with waiters := st.waiters.filter (· ≠ WaiterEntry.sync c) }

def onAsyncWaiterTimeout (st : Pool) (c : ℕ) : Pool :=
  if st.claimed c then st
  else
    { st with
      claimed := Function.update st.claimed c true
      waiters := st.waiters.filter (· ≠ WaiterEntry.async c)
      posts := st.posts ++ [(.timer, ⟨c, .timedOut, none⟩)] }

/-- The loop of `return_holder`: the first waiter that can be served, and the
waiters behind it. -/
def popWaiter (claimed : ℕ → Bool) : List WaiterEntry → Option (WaiterEntry × List WaiterEntry)
  | [] => none
  | .sync c :: rest => some (.sync c, rest)
  | .async c :: rest => if claimed c then popWaiter claimed rest else some (.async c, rest)

def returnHolder (st : Pool) (h : Holder) : Pool :=
  if st.isShutdown then st
  else
    match popWaiter st.claimed st.waiters with
    | none => { st with waiters := [], free := st.free ++ [h] }
    | some (.sync c, rest) =>
        { st with
          waiters := rest
          calls := Function.update st.calls c
            (match st.calls c with
              | .waiting timed _ => .waiting timed (some h)
              | call => call) }
    | some (.async c, rest) =>
        { st with
          waiters := rest
          claimed := Function.update st.claimed c true
          posts := st.posts ++ [(.release, ⟨c, .success, some h⟩)] }

def dropDead (st : Pool) (h : Holder) : Pool :=
  if st.isShutdown then st
  else if h ∈ st.holders then
    { st with holders := st.holders.erase h, created := st.created - 1 }
  else st

/-- `QueuedHolder::reset` by the borrower of `h`. -/
def reset (st : Pool) (c : ℕ) (h : Holder) (alive : Bool) : Pool :=
  if alive then (st.setCall c .returned).returnHolder h
  else (st.setCall c .returned).dropDead h

/-- The loop of `shutdown()` over the waiters: the handlers it claims. -/
def collect : List WaiterEntry → (ℕ → Bool) → List ℕ × (ℕ → Bool)
  | [], claimed => ([], claimed)
  | .sync _ :: rest, claimed => collect rest claimed
  | .async c :: rest, claimed =>
      if claimed c then collect rest claimed
      else
        let r := collect rest (Function.update claimed c true)
        (c :: r.1, r.2)

/-- The critical section of `shutdown()`. -/
def clear (st : Pool) : Pool :=
  { st with
    claimed := (collect st.waiters st.claimed).2
    closing := .posting (collect st.waiters st.claimed).1
    waiters := []
    free := []
    holders := [] }

end Pool

/-! ### Steps -/

inductive Action where
  | call (c : ℕ) (k : Kind)
  | lock (c : ℕ)
  | relock (c : ℕ) (connected : Bool)
  | wake (c : ℕ) (expired : Bool)
  | timer (c : ℕ)
  | post (c : ℕ)
  | runHandler (c : ℕ)
  | reset (c : ℕ) (alive : Bool)
  | exchange
  | clear
  | postAborted
  | returnShutdown
  deriving DecidableEq

/-- The first handler of call `c` in a list of handlers. -/
def handlerOf (c : ℕ) (hs : List Completion) : Option Completion := hs.find? (·.call = c)

namespace Pool

/-- A call of one of the acquiring functions, up to its first load of
`shutdown_`. -/
def callStep (st : Pool) (c : ℕ) (k : Kind) : Option Pool :=
  match st.calls c with
  | .idle => some (if st.isShutdown then st.abort k c else st.setCall c (.entered k))
  | _ => none

/-- A waiter that wakes up leaves the wait when it is `ready`, when
`shutdown_` is set, or when it waits with a timeout that has expired. -/
def wake (st : Pool) (c : ℕ) (expired : Bool) : Option Pool :=
  match st.calls c with
  | .waiting _ (some h) => some (st.setCall c (.holding h))
  | .waiting timed none =>
      if st.isShutdown ∨ timed ∧ expired then some (st.leave c) else none
  | _ => none

/-- A handler leaves the hands of a call for its executor. -/
def post (st : Pool) (c : ℕ) : Option Pool :=
  (st.posts.find? (·.2.call = c)).map fun p =>
    { st with posts := st.posts.eraseP (·.2.call = c), handlers := st.handlers ++ [p.2] }

/-- The executor runs a handler of call `c`. -/
def runHandler (st : Pool) (c : ℕ) : Option Pool :=
  (handlerOf c st.handlers).map fun p =>
    { st with handlers := st.handlers.eraseP (·.call = c) }.setCall c
      (match p.holder with
        | some h => .holding h
        | none => .returned)

def step (cfg : PoolConfig.Valid) (st : Pool) : Action → Option Pool
  | .call c k => st.callStep c k
  | .lock c =>
      match st.calls c with
      | .entered k => some (st.lock cfg k c)
      | _ => none
  | .relock c connected =>
      match st.calls c with
      | .creating k => some (st.relock k c connected)
      | _ => none
  | .wake c expired => st.wake c expired
  | .timer c =>
      if st.armed c then
        some ({ st with armed := Function.update st.armed c false }.onAsyncWaiterTimeout c)
      else none
  | .post c => st.post c
  | .runHandler c => st.runHandler c
  | .reset c alive =>
      match st.calls c with
      | .holding h => some (st.reset c h alive)
      | _ => none
  | .exchange =>
      match st.closing with
      | .idle => some { st with isShutdown := true, closing := .exchanged }
      | _ => some st
  | .clear =>
      match st.closing with
      | .exchanged => some st.clear
      | _ => none
  | .postAborted =>
      match st.closing with
      | .posting (c :: cs) =>
          some { st with
            closing := .posting cs
            handlers := st.handlers ++ [⟨c, .operationAborted, none⟩] }
      | _ => none
  | .returnShutdown =>
      match st.closing with
      | .posting [] => some { st with closing := .returned }
      | _ => none

/-- `active_count()`. -/
def activeCount (st : Pool) : ℕ := st.created - st.free.length

end Pool

/-! ### Events -/

/-- What a run shows: calls and their first critical sections, how the queue
changes, who gets a holder and how, and the handlers posted. -/
inductive Event where
  | called (c : ℕ) (k : Kind)
  | locked (c : ℕ)
  | took (c : ℕ) (h : Holder)
  | created (c : ℕ) (h : Holder)
  | enqueued (w : WaiterEntry)
  | served (w : WaiterEntry) (h : Holder)
  | timedOut (w : WaiterEntry)
  | posted (p : Completion)
  deriving DecidableEq

def Pool.emit (cfg : PoolConfig.Valid) (st : Pool) : Action → List Event
  | .call c k => [.called c k]
  | .lock c =>
      match st.calls c with
      | .entered k =>
          if st.isShutdown then []
          else
            match st.free with
            | h :: _ => [.locked c, .took c h]
            | [] =>
                .locked c ::
                  if st.created < cfg.1.capacity then [] else (k.waiter c).map .enqueued
      | _ => []
  | .relock c connected =>
      match st.calls c with
      | .creating k =>
          if k.isAsync ∧ st.isShutdown then []
          else if connected then [.created c st.fresh]
          else (k.waiter c).map .enqueued
      | _ => []
  | .wake c _ =>
      match st.calls c with
      | .waiting _ none => if st.isShutdown then [] else [.timedOut (.sync c)]
      | _ => []
  | .timer c => if st.claimed c then [] else [.timedOut (.async c)]
  | .post c => ((st.posts.find? (·.2.call = c)).map fun p => Event.posted p.2).toList
  | .reset c true =>
      match st.calls c with
      | .holding h =>
          if st.isShutdown then []
          else ((Pool.popWaiter st.claimed st.waiters).map fun r => Event.served r.1 h).toList
      | _ => []
  | .postAborted =>
      match st.closing with
      | .posting (c :: _) => [.posted ⟨c, .operationAborted, none⟩]
      | _ => []
  | _ => []

end Demiplane.Postgres

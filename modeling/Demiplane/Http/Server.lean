import Demiplane.Effects.Emit
import Demiplane.Http.RequestContext

/-!
The server: what a session does with the requests that it reads. A session is a program over what
its surroundings do in one exchange after the other: what is read, what the callbacks and the
handler throw, whether the response is written.

An asynchronous callback is spawned and runs on its own; what it does then, and what it throws, is
no part of the session.

`serve` says what a session is for. It knows the registrations and nothing of the callbacks, and
everything a session does is what `serve` does, with the calls of the callbacks put in between.
-/

namespace Demiplane.Http

open Text Effects

variable {H C E : Type}

/-- What a call throws; only a `std::exception` is caught. -/
inductive Thrown (E : Type) where
  | standard (e : E)
  | other

/-- `boost::beast::http::response<string_body>`. -/
structure Response where
  result : ℕ
  version : ℕ
  fields : List (Text × Text)
  body : Text
  /-- `keep_alive()`, which looks at the version and at the field `Connection`. -/
  keepAlive : Bool

/-- `ResponseFactory::not_found`; there is no field `Connection`. -/
def notFound (message : Text) (version : ℕ) : Response where
  result := 404
  version := version
  fields := [(ascii "Content-Type", ascii "text/plain"), (ascii "Server", ascii "demiplane/http"),
    (ascii "Content-Length", decimal message.length)]
  body := message
  keepAlive := 11 ≤ version

/-- What `async_read` ends with. -/
inductive Read where
  | request (req : Request)
  | endOfStream
  | failed

/-- What the surroundings of a session do while it answers one request. -/
structure Exchange (H C E : Type) where
  read : Read
  requestThrows : C → Option (Thrown E)
  handle : H → RequestContext → Except (Thrown E) Response
  responseThrows : C → Option (Thrown E)
  /-- `async_write` throws a `system_error`. -/
  writeThrows : Option E

inductive Event (H C E : Type) where
  | requestCallback (c : C) (req : Request)
  | responseCallback (c : C) (res : Response)
  | errorCallback (c : C) (e : E)
  | spawnRequest (c : C) (req : Request)
  | spawnResponse (c : C) (res : Response)
  /-- The coroutine has a reference to the exception, which is gone when it runs. -/
  | spawnError (c : C)
  | handle (h : H) (ctx : RequestContext)
  | write (res : Response)
  | shutdownSend

structure Server (H C : Type) where
  registry : RouteRegistry H
  middlewares : List C
  requestCallbacks : List C
  responseCallbacks : List C
  errorCallbacks : List C
  asyncRequestCallbacks : List C
  asyncResponseCallbacks : List C
  asyncErrorCallbacks : List C

/-- The context that `handle_request` makes. -/
def makeContext (request : Request) (pathParams : Params) : RequestContext :=
  ((RequestContext.new request).setPathParams pathParams).setQueryParams
    (parseQueryParams (queryOf request.target))

/-- The loop ends, or `session` returns from within it, or it waits for a request. -/
inductive Ending where
  | closed
  | returned
  | reading

namespace Server

open Emit

variable (s : Server H C) (x : Exchange H C E)

/-- What an error callback throws is caught, whatever it is. -/
def triggerErrorCallbacks (e : E) : Emit (Event H C E) (Thrown E) Unit := do
  forEach s.errorCallbacks fun c => emit (.errorCallback c e)
  forEach s.asyncErrorCallbacks fun c => emit (.spawnError c)

/-- `catch (const std::exception& e)`. -/
def caught : Thrown E → Emit (Event H C E) (Thrown E) Unit
  | .standard e => s.triggerErrorCallbacks e
  | .other => outcome (.error .other)

/-- The call of a callback, in its `try`. -/
def callback (call : Event H C E) (throws : Option (Thrown E)) :
    Emit (Event H C E) (Thrown E) Unit :=
  catching (do emit call; outcome (throws.elim (.ok ()) .error)) s.caught

def triggerRequestCallbacks (req : Request) : Emit (Event H C E) (Thrown E) Unit := do
  forEach s.requestCallbacks fun c => s.callback (.requestCallback c req) (x.requestThrows c)
  forEach s.asyncRequestCallbacks fun c => emit (.spawnRequest c req)

def triggerResponseCallbacks (res : Response) : Emit (Event H C E) (Thrown E) Unit := do
  forEach s.responseCallbacks fun c => s.callback (.responseCallback c res) (x.responseThrows c)
  forEach s.asyncResponseCallbacks fun c => emit (.spawnResponse c res)

/-- The middlewares are not called. -/
def handleRequest (request : Request) : Emit (Event H C E) (Thrown E) Response := do
  s.triggerRequestCallbacks x request
  match s.registry.findHandler request.method (pathOf request.target) with
  | .error _ =>
      let response := notFound (ascii "404 Not Found") request.version
      s.triggerResponseCallbacks x response
      pure response
  | .ok (handler, pathParams) =>
      let ctx := makeContext request pathParams
      if s.middlewares.isEmpty then
        emit (.handle handler ctx)
        let response ← outcome (x.handle handler ctx)
        s.triggerResponseCallbacks x response
        pure response
      else
        emit (.handle handler ctx)
        let responseResult ← outcome (x.handle handler ctx)
        s.triggerResponseCallbacks x responseResult
        pure responseResult

/-- The end of an iteration; `next` is the one that may follow. -/
def writeResponse (res : Response) (next : Emit (Event H C E) (Thrown E) Ending) :
    Emit (Event H C E) (Thrown E) Ending := do
  emit (.write res)
  outcome (x.writeThrows.elim (.ok ()) fun e => .error (.standard e))
  if res.keepAlive then next else pure .closed

/-- The loop of `session`, on the exchanges so far. -/
def sessionLoop : List (Exchange H C E) → Emit (Event H C E) (Thrown E) Ending
  | [] => pure .reading
  | x :: xs =>
      match x.read with
      | .endOfStream => pure .closed
      | .failed => pure .returned
      | .request req => do
          let res ← s.handleRequest x req
          writeResponse x res (sessionLoop xs)

/-- What `session` does with its loop. -/
def finish (loop : Emit (Event H C E) (Thrown E) Ending) :
    Emit (Event H C E) (Thrown E) Unit := do
  let ending ← loop.catching fun t => do
    s.caught t
    pure .closed
  match ending with
  | .closed => emit .shutdownSend
  | .returned | .reading => pure ()

def session (xs : List (Exchange H C E)) : Emit (Event H C E) (Thrown E) Unit :=
  s.finish (s.sessionLoop xs)

end Server

/-- `add_controller`, when nothing is thrown: the controller registers its routes in its own
registry, which is then moved into that of the server. A pattern that is refused ends the call
before the merge. -/
def addController (server controller : ℕ) (routes : List (Registration H)) :
    List (RegistryOp H) :=
  (routes.map fun e => .addRoute controller e.method e.path e.handler) ++
    [.mergeMove server controller]

/-! ### What a session is for -/

/-- The parameters that a pattern takes from a path. -/
def Registration.params (e : Registration H) (path : Text) : Params :=
  match e.route with
  | .ok route => (matchRoute route path).getD ∅
  | .error _ => ∅

/-- The handler of a request and the parameters that it gets, from the registrations. -/
def answerFor (log : List (Registration H)) (method : Verb) (path : Text) :
    Option (H × Params) :=
  match log.reverse.find? (·.IsExact method path) with
  | some e => some (e.handler, ∅)
  | none =>
      (log.find? fun e => isParametricPath e.path && e.Covers method path).map fun e =>
        (e.handler, e.params path)

/-- What happens in a session, for whoever looks at it. -/
inductive Act (H C E : Type) where
  | receive (x : Exchange H C E) (req : Request)
  | handle (h : H) (ctx : RequestContext)
  | answer (x : Exchange H C E) (res : Response)
  | write (res : Response)
  | fail (e : E)
  | close

/-- A response is written, and what follows is up to it. -/
def respond (x : Exchange H C E) (res : Response) (next : List (Act H C E)) :
    List (Act H C E) :=
  .answer x res :: .write res ::
    match x.writeThrows with
    | some e => [.fail e, .close]
    | none => if res.keepAlive then next else [.close]

def serve (log : List (Registration H)) : List (Exchange H C E) → List (Act H C E)
  | [] => []
  | x :: xs =>
      match x.read with
      | .endOfStream => [.close]
      | .failed => []
      | .request req =>
          .receive x req ::
            match answerFor log req.method (pathOf req.target) with
            | none => respond x (notFound (ascii "404 Not Found") req.version) (serve log xs)
            | some (h, params) =>
                .handle h (makeContext req params) ::
                  match x.handle h (makeContext req params) with
                  | .ok res => respond x res (serve log xs)
                  | .error (.standard e) => [.fail e, .close]
                  | .error .other => []

/-- A parametric route answers with its own parameters. -/
theorem findParametric_eq {routes : List (RouteInfo H)} {es : List (Registration H)}
    (h : List.Forall₂ (fun route e => Registration.route e = .ok route) routes es)
    (method : Verb) (path : Text) :
    (RouteRegistry.findParametric method path routes).toOption =
      (es.find? (·.Covers method path)).map fun e => (e.handler, e.params path) := by
  induction h with
  | nil => rfl
  | @cons route e routes es he _ ih =>
    have hcovers : e.Covers method path =
        (e.method == method && (matchRoute route path).isSome) := by
      rw [Registration.Covers, he]
    have hparams : e.params path = (matchRoute route path).getD ∅ := by
      rw [Registration.params, he]
    obtain ⟨re, -, rfl⟩ := createParametricRoute_eq_ok he
    rw [RouteRegistry.findParametric, List.find?_cons, hcovers]
    by_cases hmethod : e.method = method
    · rw [if_neg (not_not.mpr hmethod), beq_iff_eq.mpr hmethod, Bool.true_and]
      cases hmatch : matchRoute _ path with
      | none => exact ih
      | some params => simp [hparams, hmatch, Except.toOption]
    · rw [if_pos hmethod, beq_false_of_ne hmethod, Bool.false_and]
      exact ih

theorem Keeps.answerFor {r : RouteRegistry H} {log : List (Registration H)} (h : Keeps r log)
    (method : Verb) (path : Text) :
    (r.findHandler method path).toOption = Http.answerFor log method path := by
  rw [RouteRegistry.findHandler, h.exact, Http.answerFor]
  cases log.reverse.find? (·.IsExact method path) with
  | some e => rfl
  | none =>
    have hfind := findParametric_eq h.parametric method path
    rw [List.find?_filter] at hfind
    simpa using hfind

/-! ### A session does what it is for -/

/-- The callbacks throw nothing but a `std::exception`. -/
def Exchange.Calm (x : Exchange H C E) : Prop :=
  (∀ c, x.requestThrows c ≠ some .other) ∧ ∀ c, x.responseThrows c ≠ some .other

namespace Server

open Emit

variable (s : Server H C)

/-- An exception is reported to every error callback. -/
def errorEvents (e : E) : List (Event H C E) :=
  s.errorCallbacks.map (.errorCallback · e) ++ s.asyncErrorCallbacks.map .spawnError

def callEvents (call : Event H C E) : Option (Thrown E) → List (Event H C E)
  | some (.standard e) => call :: s.errorEvents e
  | _ => [call]

/-- What happens, with the calls of the callbacks that it causes. -/
def expand : Act H C E → List (Event H C E)
  | .receive x req =>
      s.requestCallbacks.flatMap
          (fun c => s.callEvents (.requestCallback c req) (x.requestThrows c)) ++
        s.asyncRequestCallbacks.map (.spawnRequest · req)
  | .handle h ctx => [.handle h ctx]
  | .answer x res =>
      s.responseCallbacks.flatMap
          (fun c => s.callEvents (.responseCallback c res) (x.responseThrows c)) ++
        s.asyncResponseCallbacks.map (.spawnResponse · res)
  | .write res => [.write res]
  | .fail e => s.errorEvents e
  | .close => [.shutdownSend]

theorem triggerErrorCallbacks_eq (e : E) :
    (s.triggerErrorCallbacks e : Emit (Event H C E) _ _) = ⟨s.errorEvents e, .ok ()⟩ := by
  rw [triggerErrorCallbacks, forEach_emit, bind_ok, forEach_emit, errorEvents]

/-- The exception of a callback stays in its `try`. -/
theorem callback_eq (call : Event H C E) {throws : Option (Thrown E)} (h : throws ≠ some .other) :
    s.callback call throws = ⟨s.callEvents call throws, .ok ()⟩ := by
  match throws, h with
  | none, _ => rfl
  | some (.standard e), _ =>
    change catching ⟨[call], .error (.standard e)⟩ s.caught = _
    rw [catching_error, caught, triggerErrorCallbacks_eq]
    rfl

section

variable {x : Exchange H C E} (hcalm : x.Calm)

include hcalm

theorem triggerRequestCallbacks_eq (req : Request) :
    s.triggerRequestCallbacks x req = ⟨s.expand (.receive x req), .ok ()⟩ := by
  rw [triggerRequestCallbacks, forEach_eq fun c _ => s.callback_eq _ (hcalm.1 c), bind_ok,
    forEach_emit, expand]

theorem triggerResponseCallbacks_eq (res : Response) :
    s.triggerResponseCallbacks x res = ⟨s.expand (.answer x res), .ok ()⟩ := by
  rw [triggerResponseCallbacks, forEach_eq fun c _ => s.callback_eq _ (hcalm.2 c), bind_ok,
    forEach_emit, expand]

/-- The events of a request up to its response. -/
theorem handleRequest_eq {log : List (Registration H)} (hkeeps : Keeps s.registry log)
    (req : Request) :
    s.handleRequest x req =
      match answerFor log req.method (pathOf req.target) with
      | none =>
          let res := notFound (ascii "404 Not Found") req.version
          ⟨s.expand (.receive x req) ++ s.expand (.answer x res), .ok res⟩
      | some (h, params) =>
          let ctx := makeContext req params
          match x.handle h ctx with
          | .ok res =>
              ⟨s.expand (.receive x req) ++ .handle h ctx :: s.expand (.answer x res), .ok res⟩
          | .error t => ⟨s.expand (.receive x req) ++ [.handle h ctx], .error t⟩ := by
  rw [handleRequest, s.triggerRequestCallbacks_eq hcalm, bind_ok,
    ← hkeeps.answerFor]
  cases s.registry.findHandler req.method (pathOf req.target) with
  | error err =>
    simp [s.triggerResponseCallbacks_eq hcalm, Except.toOption, pure_eq]
  | ok found =>
    simp only [ite_self, Except.toOption, emit, outcome, bind_ok]
    cases x.handle found.1 (makeContext req found.2) with
    | error t => simp
    | ok res => simp [s.triggerResponseCallbacks_eq hcalm, pure_eq]

end

/-- What the loop did before stays, whatever follows. -/
theorem finish_bind {A : Type} (es : List (Event H C E)) (a : A)
    (f : A → Emit (Event H C E) (Thrown E) Ending) :
    (s.finish (⟨es, .ok a⟩ >>= f)).events = es ++ (s.finish (f a)).events := by
  rw [bind_ok]
  obtain ⟨es', result⟩ := f a
  cases result with
  | ok ending => cases ending <;> simp [finish, emit, pure_eq]
  | error t => cases t <;> simp [finish, caught, triggerErrorCallbacks_eq, emit, outcome, pure_eq]

/-- An exception is reported and the connection closed. -/
theorem finish_error (es : List (Event H C E)) (e : E) :
    (s.finish ⟨es, .error (.standard e)⟩).events =
      es ++ [Act.fail e, .close].flatMap s.expand := by
  simp [finish, caught, triggerErrorCallbacks_eq, emit, pure_eq, expand]

theorem finish_writeResponse (x : Exchange H C E) (res : Response)
    {next : Emit (Event H C E) (Thrown E) Ending} {acts : List (Act H C E)}
    (hnext : (s.finish next).events = acts.flatMap s.expand) :
    s.expand (.answer x res) ++ (s.finish (writeResponse x res next)).events =
      (respond x res acts).flatMap s.expand := by
  have hwrite : (s.finish (writeResponse x res next)).events = .write res ::
      (s.finish (do
        outcome (x.writeThrows.elim (.ok ()) fun e => .error (.standard e))
        if res.keepAlive then next else pure .closed)).events := s.finish_bind [.write res] () _
  rw [hwrite, respond, List.flatMap_cons, List.flatMap_cons]
  cases x.writeThrows with
  | some e => exact congrArg _ (congrArg _ (s.finish_error [] e))
  | none =>
    refine congrArg _ (congrArg _ ?_)
    refine (s.finish_bind [] () _).trans ?_
    cases res.keepAlive with
    | true => exact hnext
    | false => rfl

theorem session_events {log : List (Registration H)} (hkeeps : Keeps s.registry log)
    {xs : List (Exchange H C E)} (hcalm : ∀ x ∈ xs, x.Calm) :
    (s.session xs).events = (serve log xs).flatMap s.expand := by
  induction xs with
  | nil => rfl
  | cons x xs ih =>
    obtain ⟨hx, hxs⟩ := List.forall_mem_cons.mp hcalm
    rw [session, sessionLoop, serve]
    cases x.read with
    | endOfStream => rfl
    | failed => rfl
    | request req =>
      dsimp only
      rw [s.handleRequest_eq hx hkeeps, List.flatMap_cons]
      cases answerFor log req.method (pathOf req.target) with
      | none =>
        dsimp only
        rw [finish_bind, List.append_assoc, s.finish_writeResponse x _ (ih hxs)]
      | some found =>
        dsimp only
        cases x.handle found.1 (makeContext req found.2) with
        | ok res =>
          dsimp only
          rw [finish_bind, List.append_assoc, List.cons_append,
            s.finish_writeResponse x _ (ih hxs)]
          rfl
        | error t =>
          dsimp only
          rw [bind_error]
          cases t with
          | standard e =>
            rw [finish_error, List.append_assoc]
            rfl
          | other => simp [finish, caught, outcome, expand]

end Server

/-! ### What is seen at the connection -/

def Event.onConnection : Event H C E → Bool
  | .handle .. | .write .. | .shutdownSend => true
  | _ => false

/-- What happens at the connection, without the callbacks. -/
def Act.onConnection : Act H C E → List (Event H C E)
  | .handle h ctx => [.handle h ctx]
  | .write res => [.write res]
  | .close => [.shutdownSend]
  | .receive .. | .answer .. | .fail _ => []

namespace Server

variable (s : Server H C)

theorem filter_errorEvents (e : E) :
    (s.errorEvents e : List (Event H C E)).filter Event.onConnection = [] := by
  simp [errorEvents, Event.onConnection]

/-- Neither the callbacks nor what they throw is seen. -/
theorem filter_calls {call spawn : C → Event H C E} (hcall : ∀ c, (call c).onConnection = false)
    (hspawn : ∀ c, (spawn c).onConnection = false) (cs asyncs : List C)
    (throws : C → Option (Thrown E)) :
    ((cs.flatMap fun c => s.callEvents (call c) (throws c)) ++ asyncs.map spawn).filter
      Event.onConnection = [] := by
  have hthrown : ∀ c, (s.callEvents (call c) (throws c)).filter Event.onConnection = [] := by
    intro c
    match throws c with
    | none => simp [callEvents, hcall]
    | some .other => simp [callEvents, hcall]
    | some (.standard e) => simp [callEvents, hcall, filter_errorEvents]
  simp only [List.filter_append, List.filter_flatMap, hthrown]
  simp [hspawn]

theorem filter_expand (act : Act H C E) :
    (s.expand act).filter Event.onConnection = act.onConnection := by
  cases act with
  | receive x req => exact s.filter_calls (fun _ => rfl) (fun _ => rfl) _ _ _
  | answer x res => exact s.filter_calls (fun _ => rfl) (fun _ => rfl) _ _ _
  | fail e => exact s.filter_errorEvents e
  | handle h ctx => rfl
  | write res => rfl
  | close => rfl

/-- A request that a route is found for is handled once, by its handler. -/
theorem handleRequest_found {x : Exchange H C E} (hcalm : x.Calm) {req : Request} {h : H}
    {params : Params}
    (hfind : s.registry.findHandler req.method (pathOf req.target) = .ok (h, params)) :
    (s.handleRequest x req).events.filter Event.onConnection =
      [.handle h (makeContext req params)] := by
  rw [handleRequest, s.triggerRequestCallbacks_eq hcalm, Emit.bind_ok, hfind]
  simp only [ite_self, Emit.emit, Emit.outcome, Emit.bind_ok]
  cases x.handle h (makeContext req params) with
  | error t => simp [filter_expand, Act.onConnection, Event.onConnection]
  | ok res =>
    simp [s.triggerResponseCallbacks_eq hcalm, Emit.pure_eq, List.filter_cons, filter_expand,
      Act.onConnection, Event.onConnection]

/-- After any history of registrations and merges, a session does what `serve` says for the
journal of the server's registry: for each request read, each response made and each exception
thrown in it, all synchronous callbacks are called and all asynchronous ones spawned, in order and
once, and what is handled, written and closed is the same whatever the callbacks do. -/
theorem session_serves (ops : List (RegistryOp H)) (w : Registries H)
    (hops : Transition.run registryStep noRoutes ops = some w) (i : ℕ)
    (hregistry : s.registry = w i) (xs : List (Exchange H C E)) (hcalm : ∀ x ∈ xs, x.Calm) :
    (s.session xs).events = (serve (journal ops i) xs).flatMap s.expand ∧
      (s.session xs).events.filter Event.onConnection =
        (serve (journal ops i) xs).flatMap Act.onConnection := by
  have hevents := s.session_events (hregistry ▸ keeps_run hops i) hcalm
  refine ⟨hevents, ?_⟩
  rw [hevents, List.filter_flatMap]
  exact List.flatMap_congr fun act _ => s.filter_expand act

/-- One route, of the controller 1. -/
def oneRoute : List (RegistryOp Bool) := addController 0 1 [⟨1, ascii "/a", true⟩]

/-- A server that a request callback and an error callback watch. -/
def watched : Server Bool ℕ where
  registry := (Transition.run registryStep noRoutes oneRoute).getD noRoutes 0
  middlewares := []
  requestCallbacks := [0]
  responseCallbacks := []
  errorCallbacks := [1]
  asyncRequestCallbacks := []
  asyncResponseCallbacks := []
  asyncErrorCallbacks := []

/-- A request for the route, during which the request callback throws. -/
def disturbed : Exchange Bool ℕ ℕ where
  read := .request ⟨1, ascii "/a?b=c", 11, [], []⟩
  requestThrows _ := some (.standard 5)
  handle _ _ := .ok (notFound [] 10)
  responseThrows _ := none
  writeThrows := none

/-- The exception is reported, and the request is handled and answered nevertheless. -/
theorem session_serves_disturbed :
    (∀ x ∈ [disturbed], x.Calm) ∧ (watched.session [disturbed]).events =
      [.requestCallback 0 ⟨1, ascii "/a?b=c", 11, [], []⟩, .errorCallback 1 5,
        .handle true (makeContext ⟨1, ascii "/a?b=c", 11, [], []⟩ ∅), .write (notFound [] 10),
        .shutdownSend] := by
  have hcalm : ∀ x ∈ [disturbed], x.Calm := by
    rintro x (_ | ⟨_, ⟨⟩⟩)
    exact ⟨fun _ => nofun, fun _ => nofun⟩
  exact ⟨hcalm, (watched.session_serves oneRoute _ rfl 0 rfl [disturbed] hcalm).1⟩

end Server

end Demiplane.Http

import Demiplane.Http.Parameters
import Demiplane.Regex.Matching
import Demiplane.Text.Columns
import Demiplane.Transition.Run

/-!
The registry of routes of the server. A path with a brace becomes a regular expression and is kept
in a list; any other path is kept in a table, under a key made of the method and the path.

A registry is meant to be the journal of the registrations made with it, where a merge registers
what the other journal still holds. `dispatch` answers a request from a journal: the last
registration of the path itself, else the first pattern that matches.
-/

namespace Demiplane.Http

open Text Regex Transition

/-- The number of a `boost::beast::http::verb`. -/
abbrev Verb := ℕ

/-- `std::out_of_range`. -/
structure OutOfRange where
  what : Text
  deriving DecidableEq

variable {H : Type}

structure RouteInfo (H : Type) where
  method : Verb
  path : Text
  pattern : Text
  paramNames : List Text
  handler : H
  isParametric : Bool
  /-- `std::shared_ptr<std::regex>`. -/
  compiledRegex : Option Compiled

structure RouteRegistry (H : Type) where
  /-- `boost::unordered_flat_map`; a loop visits the keys in some order, each of them once. -/
  exactRoutes : AList fun _ : Text => H
  parametricRoutes : List (RouteInfo H)

def makeRouteKey (method : Verb) (path : Text) : Text := decimal method ++ 58 :: path

/-- `path.find('\x7b') != npos`. -/
def isParametricPath (path : Text) : Bool := path.contains 123

/-- The loop that collects the names, on a text of at most `fuel` bytes. -/
def paramNamesLoop (paramRegex : Regex) : ℕ → Text → List Text
  | 0, _ => []
  | fuel + 1, patternCopy =>
      match regexSearch paramRegex [] patternCopy with
      | none => []
      | some found =>
          (found.captures 1).getD [] :: paramNamesLoop paramRegex fuel found.stop.after

/-- Each name in braces is a group; what is between them goes into the pattern as it is. -/
def createParametricRoute (method : Verb) (path : Text) (handler : H) :
    Except RegexError (RouteInfo H) := do
  let paramRegex ← compile (ascii "\\\x7b([^\x7d]+)\\\x7d")
  let paramNames := paramNamesLoop paramRegex.regex path.length path
  let pattern := ascii "^" ++ regexReplace paramRegex.regex (ascii "([^/]+)") path ++ ascii "$"
  let compiledRegex ← compile pattern
  .ok ⟨method, path, pattern, paramNames, handler, true, some compiledRegex⟩

/-- `make_shared<std::regex>(route.pattern)`. -/
def recompile (route : RouteInfo H) : RouteInfo H :=
  if route.isParametric then { route with compiledRegex := (compile route.pattern).toOption }
  else route

/-- The names are bound to the groups as far as there are any. -/
def bindParams (paramNames : List Text) (markCount : ℕ) (captures : Captures) : Params :=
  (paramNames.take markCount).zipIdx.foldl
    (fun params (name, i) => params.insert name ((captures (i + 1)).getD [])) ∅

/-- What the loop of `find_handler` asks of a route. -/
def matchRoute (route : RouteInfo H) (path : Text) : Option Params :=
  match route.compiledRegex with
  | none => none
  | some re =>
      (regexMatch re.regex path).map fun captures =>
        bindParams route.paramNames re.markCount captures

namespace RouteRegistry

def new : RouteRegistry H := ⟨∅, []⟩

/-- `add_route`; if a pattern is refused, nothing is stored. -/
def addRoute (r : RouteRegistry H) (method : Verb) (path : Text) (handler : H) :
    Except RegexError (RouteRegistry H) :=
  if isParametricPath path then do
    let info ← createParametricRoute method path handler
    .ok { r with parametricRoutes := r.parametricRoutes ++ [info] }
  else .ok { r with exactRoutes := r.exactRoutes.insert (makeRouteKey method path) handler }

/-- The loop over the table of another registry. -/
def mergeExact (mine other : AList fun _ : Text => H) : AList fun _ : Text => H :=
  other.entries.foldl (fun routes e => routes.insert e.1 e.2) mine

/-- `merge(RouteRegistry&&)`, and what is left of the other registry. -/
def mergeMove (r other : RouteRegistry H) : RouteRegistry H × RouteRegistry H :=
  (⟨mergeExact r.exactRoutes other.exactRoutes, r.parametricRoutes ++ other.parametricRoutes⟩,
    new)

/-- `merge(const RouteRegistry&)`. -/
def mergeCopy (r other : RouteRegistry H) : RouteRegistry H :=
  ⟨mergeExact r.exactRoutes other.exactRoutes,
    r.parametricRoutes ++ other.parametricRoutes.map recompile⟩

/-- The copy constructor, and `operator=` for another registry. -/
def copyOf (other : RouteRegistry H) : RouteRegistry H :=
  ⟨other.exactRoutes, other.parametricRoutes.map recompile⟩

/-- The loop over the patterns. -/
def findParametric (method : Verb) (path : Text) :
    List (RouteInfo H) → Except OutOfRange (H × Params)
  | [] => .error ⟨ascii "No route found for " ++ decimal method ++ 32 :: path⟩
  | route :: rest =>
      if route.method ≠ method then findParametric method path rest
      else
        match matchRoute route path with
        | some params => .ok (route.handler, params)
        | none => findParametric method path rest

def findHandler (r : RouteRegistry H) (method : Verb) (path : Text) :
    Except OutOfRange (H × Params) :=
  match r.exactRoutes.lookup (makeRouteKey method path) with
  | some handler => .ok (handler, ∅)
  | none => findParametric method path r.parametricRoutes

end RouteRegistry

/-! ### Several registries -/

/-- The operations on registries, which are numbered. -/
inductive RegistryOp (H : Type) where
  | addRoute (i : ℕ) (method : Verb) (path : Text) (handler : H)
  | mergeMove (i j : ℕ)
  | mergeCopy (i j : ℕ)
  | copyConstruct (i j : ℕ)
  | copyAssign (i j : ℕ)
  | clear (i : ℕ)

abbrev Registries (H : Type) := ℕ → RouteRegistry H

/-- A registry is not merged into itself, nor is it copied while it is constructed. -/
def registryStep (w : Registries H) : RegistryOp H → Option (Registries H)
  | .addRoute i method path handler =>
      match (w i).addRoute method path handler with
      | .ok r => some (Function.update w i r)
      | .error _ => some w
  | .mergeMove i j =>
      if i = j then none
      else
        let (r, other) := (w i).mergeMove (w j)
        some (Function.update (Function.update w j other) i r)
  | .mergeCopy i j =>
      if i = j then none else some (Function.update w i ((w i).mergeCopy (w j)))
  | .copyConstruct i j => if i = j then none else some (Function.update w i (w j).copyOf)
  | .copyAssign i j => if i = j then some w else some (Function.update w i (w j).copyOf)
  | .clear i => some (Function.update w i .new)

def noRoutes : Registries H := fun _ => .new

/-! ### Journals -/

structure Registration (H : Type) where
  method : Verb
  path : Text
  handler : H

namespace Registration

/-- A registration of this path, not of a pattern. -/
def IsExact (method : Verb) (path : Text) (e : Registration H) : Bool :=
  !isParametricPath e.path && e.method == method && e.path == path

def route (e : Registration H) : Except RegexError (RouteInfo H) :=
  createParametricRoute e.method e.path e.handler

/-- The pattern of the registration matches the path. -/
def Covers (method : Verb) (path : Text) (e : Registration H) : Bool :=
  match e.route with
  | .ok route => e.method == method && (matchRoute route path).isSome
  | .error _ => false

end Registration

/-- The registrations that no later one replaced. -/
def surviving : List (Registration H) → List (Registration H)
  | [] => []
  | e :: log =>
      if !isParametricPath e.path && log.any (·.IsExact e.method e.path) then surviving log
      else e :: surviving log

/-- The answer to a request: the most recent registration of its method and path, else the
earliest pattern for it. -/
def dispatch (log : List (Registration H)) (method : Verb) (path : Text) :
    Except OutOfRange H :=
  match log.reverse.find? (·.IsExact method path) with
  | some e => .ok e.handler
  | none =>
      match log.find? fun e => isParametricPath e.path && e.Covers method path with
      | some e => .ok e.handler
      | none => .error ⟨ascii "No route found for " ++ decimal method ++ 32 :: path⟩

abbrev Journals (H : Type) := ℕ → List (Registration H)

/-- What an operation adds to the journals. -/
def record (logs : Journals H) : RegistryOp H → Journals H
  | .addRoute i method path handler =>
      let e : Registration H := ⟨method, path, handler⟩
      if isParametricPath path && e.route.isOk == false then logs
      else Function.update logs i (logs i ++ [e])
  | .mergeMove i j =>
      Function.update (Function.update logs j []) i (logs i ++ surviving (logs j))
  | .mergeCopy i j => Function.update logs i (logs i ++ surviving (logs j))
  | .copyConstruct i j | .copyAssign i j => Function.update logs i (logs j)
  | .clear i => Function.update logs i []

def journal (ops : List (RegistryOp H)) : Journals H := ops.foldl record fun _ => []

/-! ### Keys -/

theorem colon_not_mem_decimal (n : ℕ) : (58 : UInt8) ∉ decimal n := by
  intro h
  have hdigit := isDigit_of_mem_decimal h
  exact absurd hdigit (by decide)

theorem makeRouteKey_inj {m m' : Verb} {p p' : Text} :
    makeRouteKey m p = makeRouteKey m' p' ↔ m = m' ∧ p = p' := by
  constructor
  · intro h
    obtain ⟨hm, hp⟩ := append_mark_inj (colon_not_mem_decimal m) (colon_not_mem_decimal m') h
    exact ⟨by simpa using congrArg number hm, hp⟩
  · rintro ⟨rfl, rfl⟩
    rfl

/-- The order of the loop does not matter, as no key is visited twice. -/
theorem lookup_mergeExact (mine other : AList fun _ : Text => H) (key : Text) :
    (RouteRegistry.mergeExact mine other).lookup key =
      (other.lookup key).or (mine.lookup key) := by
  have hfinmap : ∀ (es : List (Σ _ : Text, H)) (routes : AList fun _ : Text => H),
      (es.foldl (fun routes e => routes.insert e.1 e.2) routes).toFinmap =
        es.foldl (fun routes e => routes.insert e.1 e.2) routes.toFinmap := by
    intro es routes
    induction es generalizing routes with
    | nil => rfl
    | cons e es ih => rw [List.foldl_cons, List.foldl_cons, ih, Finmap.insert_toFinmap]
  rw [← Finmap.lookup_toFinmap, RouteRegistry.mergeExact, hfinmap,
    lookup_foldl_insert _ _ _ other.nodupKeys]
  rfl

/-! ### A registry keeps its journal -/

theorem surviving_filter (log : List (Registration H)) :
    (surviving log).filter (isParametricPath ·.path) = log.filter (isParametricPath ·.path) := by
  induction log with
  | nil => rfl
  | cons e log ih =>
    rw [surviving]
    split_ifs with h
    · rw [List.filter_cons_of_neg (by simp_all), ih]
    · rw [List.filter_cons, List.filter_cons, ih]

/-- What a later registration replaced is not the last one of its path. -/
theorem surviving_find? (log : List (Registration H)) (method : Verb) (path : Text) :
    (surviving log).reverse.find? (·.IsExact method path) =
      log.reverse.find? (·.IsExact method path) := by
  induction log with
  | nil => rfl
  | cons e log ih =>
    rw [surviving, List.reverse_cons, List.find?_append, ← ih]
    split_ifs with h
    · cases hfind : (surviving log).reverse.find? (·.IsExact method path) with
      | some e' => rfl
      | none =>
        have hnone : log.reverse.find? (·.IsExact method path) = none := by rw [← ih, hfind]
        have hne : e.IsExact method path = false := by
          obtain ⟨e', he', hexact⟩ := List.any_eq_true.mp (Bool.and_eq_true_iff.mp h).2
          have hnot := List.find?_eq_none.mp hnone e' (List.mem_reverse.mpr he')
          simp only [Registration.IsExact, Bool.and_eq_true, Bool.not_eq_true', beq_iff_eq] at *
          grind
        simp [hne]
    · rw [List.reverse_cons, List.find?_append]

/-- The table answers for the paths and the list holds the patterns, compiled. -/
structure Keeps (r : RouteRegistry H) (log : List (Registration H)) : Prop where
  exact : ∀ method path, r.exactRoutes.lookup (makeRouteKey method path) =
    (log.reverse.find? (·.IsExact method path)).map (·.handler)
  parametric : List.Forall₂ (fun route e => Registration.route e = .ok route)
    r.parametricRoutes (log.filter (isParametricPath ·.path))

theorem keeps_new : Keeps (RouteRegistry.new : RouteRegistry H) [] := ⟨fun _ _ => rfl, .nil⟩

/-- The expression for a name in braces. -/
def paramExpression : Regex := sequence [.char 123, someExcept [.single 125] 1, .char 125]

theorem compile_paramExpression :
    compile (ascii "\\\x7b([^\x7d]+)\\\x7d") = .ok ⟨paramExpression, 1⟩ := by decide

def routePattern (path : Text) : Text :=
  ascii "^" ++ regexReplace paramExpression (ascii "([^/]+)") path ++ ascii "$"

/-- A route is what its pattern is compiled to. -/
theorem createParametricRoute_eq (method : Verb) (path : Text) (handler : H) :
    createParametricRoute method path handler = (compile (routePattern path)).map fun re =>
      ⟨method, path, routePattern path, paramNamesLoop paramExpression path.length path, handler,
        true, some re⟩ := by
  rw [createParametricRoute, compile_paramExpression]
  change (do let re ← compile (routePattern path); _) = _
  cases compile (routePattern path) <;> rfl

theorem createParametricRoute_eq_ok {method : Verb} {path : Text} {handler : H}
    {route : RouteInfo H} (h : createParametricRoute method path handler = .ok route) :
    ∃ re, compile (routePattern path) = .ok re ∧
      route = ⟨method, path, routePattern path,
        paramNamesLoop paramExpression path.length path, handler, true, some re⟩ := by
  rw [createParametricRoute_eq] at h
  cases hre : compile (routePattern path) with
  | error e => rw [hre] at h; cases h
  | ok re => rw [hre] at h; exact ⟨re, rfl, (Except.ok.inj h).symm⟩

/-- A second compilation of a pattern changes nothing. -/
theorem recompile_of_route {e : Registration H} {route : RouteInfo H} (h : e.route = .ok route) :
    recompile route = route := by
  obtain ⟨re, hre, rfl⟩ := createParametricRoute_eq_ok h
  simp [recompile, hre, Except.toOption]

theorem map_recompile {routes : List (RouteInfo H)} {es : List (Registration H)}
    (h : List.Forall₂ (fun route e => Registration.route e = .ok route) routes es) :
    routes.map recompile = routes := by
  induction h with
  | nil => rfl
  | cons he _ ih => rw [List.map_cons, recompile_of_route he, ih]

namespace Keeps

variable {r other : RouteRegistry H} {log log' : List (Registration H)}

theorem copyOf (h : Keeps r log) : Keeps r.copyOf log :=
  ⟨h.exact, by simpa [RouteRegistry.copyOf, map_recompile h.parametric] using h.parametric⟩

/-- The journal of the registry that is merged follows. -/
theorem merge (h : Keeps r log) (hother : Keeps other log') :
    Keeps ⟨RouteRegistry.mergeExact r.exactRoutes other.exactRoutes,
      r.parametricRoutes ++ other.parametricRoutes⟩ (log ++ surviving log') where
  exact method path := by
    rw [lookup_mergeExact, h.exact, hother.exact, List.reverse_append, List.find?_append,
      surviving_find?, Option.map_or]
  parametric := by
    rw [List.filter_append, surviving_filter]
    exact List.rel_append h.parametric hother.parametric

theorem addExact (h : Keeps r log) (method : Verb) {path : Text} (handler : H)
    (hpath : isParametricPath path = false) :
    Keeps { r with exactRoutes := r.exactRoutes.insert (makeRouteKey method path) handler }
      (log ++ [⟨method, path, handler⟩]) where
  exact m p := by
    rw [List.reverse_append, List.find?_append]
    by_cases hkey : makeRouteKey m p = makeRouteKey method path
    · obtain ⟨rfl, rfl⟩ := makeRouteKey_inj.mp hkey
      simp [Registration.IsExact, hpath]
    · have hne : ¬ (method = m ∧ path = p) := fun h => hkey (by rw [h.1, h.2])
      rw [AList.lookup_insert_ne hkey, h.exact]
      have hno : ([⟨method, path, handler⟩] : List (Registration H)).reverse.find?
          (·.IsExact m p) = none := by
        simpa [Registration.IsExact, hpath] using hne
      rw [hno, Option.none_or]
  parametric := by
    rw [List.filter_append, List.filter_cons_of_neg (by simp [hpath]), List.filter_nil,
      List.append_nil]
    exact h.parametric

theorem addParametric (h : Keeps r log) {method : Verb} {path : Text} {handler : H}
    {info : RouteInfo H} (hpath : isParametricPath path = true)
    (hinfo : createParametricRoute method path handler = .ok info) :
    Keeps { r with parametricRoutes := r.parametricRoutes ++ [info] }
      (log ++ [⟨method, path, handler⟩]) where
  exact m p := by
    rw [List.reverse_append, List.find?_append, h.exact]
    simp [Registration.IsExact, hpath]
  parametric := by
    rw [List.filter_append, List.filter_cons_of_pos (by exact hpath)]
    exact List.rel_append h.parametric (.cons hinfo .nil)

/-- The loop over the patterns finds the earliest one in the journal. -/
theorem findParametric {routes : List (RouteInfo H)} {es : List (Registration H)}
    (h : List.Forall₂ (fun route e => Registration.route e = .ok route) routes es)
    (method : Verb) (path : Text) :
    (RouteRegistry.findParametric method path routes).map Prod.fst =
      match es.find? (·.Covers method path) with
      | some e => .ok e.handler
      | none => .error ⟨ascii "No route found for " ++ decimal method ++ 32 :: path⟩ := by
  induction h with
  | nil => rfl
  | @cons route e routes es he _ ih =>
    have hcovers : e.Covers method path =
        (e.method == method && (matchRoute route path).isSome) := by
      rw [Registration.Covers, he]
    obtain ⟨re, -, rfl⟩ := createParametricRoute_eq_ok he
    rw [RouteRegistry.findParametric, List.find?_cons, hcovers]
    by_cases hmethod : e.method = method
    · rw [if_neg (not_not.mpr hmethod), beq_iff_eq.mpr hmethod, Bool.true_and]
      cases matchRoute _ path with
      | none => exact ih
      | some params => rfl
    · rw [if_pos hmethod, beq_false_of_ne hmethod, Bool.false_and]
      exact ih

/-- A registry answers as its journal says. -/
theorem findHandler (h : Keeps r log) (method : Verb) (path : Text) :
    (r.findHandler method path).map Prod.fst = dispatch log method path := by
  rw [RouteRegistry.findHandler, h.exact, dispatch]
  cases log.reverse.find? (·.IsExact method path) with
  | some e => rfl
  | none =>
    have hfind := Keeps.findParametric h.parametric method path
    rw [List.find?_filter] at hfind
    simpa using hfind

end Keeps

/-! ### Histories -/

section Histories

variable {w w' : Registries H} {logs : Journals H}

theorem keeps_update {i : ℕ} {r : RouteRegistry H} {log : List (Registration H)}
    (h : ∀ i, Keeps (w i) (logs i)) (hr : Keeps r log) (j : ℕ) :
    Keeps (Function.update w i r j) (Function.update logs i log j) := by
  by_cases hj : j = i
  · subst hj
    simpa using hr
  · simpa [hj] using h j

/-- A registration goes to the end of its journal, unless its pattern is refused. -/
theorem keeps_addRoute (h : ∀ i, Keeps (w i) (logs i)) {j : ℕ} {method : Verb} {path : Text}
    {handler : H} (hstep : registryStep w (.addRoute j method path handler) = some w') (i : ℕ) :
    Keeps (w' i) (record logs (.addRoute j method path handler) i) := by
  simp only [registryStep, RouteRegistry.addRoute] at hstep
  cases hpath : isParametricPath path with
  | false =>
    rw [if_neg (by simp [hpath])] at hstep
    obtain rfl := Option.some.inj hstep
    simpa [record, hpath] using keeps_update h ((h j).addExact method handler hpath) i
  | true =>
    rw [if_pos hpath] at hstep
    cases hinfo : createParametricRoute method path handler with
    | error e =>
      rw [hinfo] at hstep
      obtain rfl := Option.some.inj hstep
      simpa [record, hpath, Registration.route, hinfo, Except.isOk, Except.toBool] using h i
    | ok info =>
      rw [hinfo] at hstep
      obtain rfl := Option.some.inj hstep
      simpa [record, hpath, Registration.route, hinfo, Except.isOk, Except.toBool] using
        keeps_update h ((h j).addParametric hpath hinfo) i

/-- Every operation keeps the journals of all registries. -/
theorem keeps_step (h : ∀ i, Keeps (w i) (logs i)) {op : RegistryOp H}
    (hstep : registryStep w op = some w') (i : ℕ) : Keeps (w' i) (record logs op i) := by
  cases op with
  | addRoute j method path handler => exact keeps_addRoute h hstep i
  | mergeMove j l =>
    simp only [registryStep, RouteRegistry.mergeMove] at hstep
    split_ifs at hstep
    obtain rfl := Option.some.inj hstep
    exact keeps_update (keeps_update h keeps_new) ((h j).merge (h l)) i
  | mergeCopy j l =>
    simp only [registryStep, RouteRegistry.mergeCopy,
      map_recompile (h l).parametric] at hstep
    split_ifs at hstep
    obtain rfl := Option.some.inj hstep
    exact keeps_update h ((h j).merge (h l)) i
  | copyConstruct j l =>
    simp only [registryStep] at hstep
    split_ifs at hstep
    obtain rfl := Option.some.inj hstep
    exact keeps_update h (h l).copyOf i
  | copyAssign j l =>
    simp only [registryStep] at hstep
    split_ifs at hstep with hj
    · -- an assignment of a registry to itself
      subst hj
      obtain rfl := Option.some.inj hstep
      simpa [record] using h i
    · obtain rfl := Option.some.inj hstep
      exact keeps_update h (h l).copyOf i
  | clear j =>
    obtain rfl := Option.some.inj hstep
    exact keeps_update h keeps_new i

theorem keeps_run {ops : List (RegistryOp H)} (h : run registryStep noRoutes ops = some w)
    (i : ℕ) : Keeps (w i) (journal ops i) := by
  induction ops using List.reverseRecOn generalizing w i with
  | nil =>
    obtain rfl := Option.some.inj h
    exact keeps_new
  | append_singleton ops op ih =>
    obtain ⟨u, hu, hstep⟩ := run_snoc.mp h
    rw [journal, List.foldl_concat]
    exact keeps_step (fun i => ih hu i) hstep i

/-- After every history a registry answers a request with the most recent registration of its
method and path, else with the earliest pattern that matches, and throws if there is none. -/
theorem findHandler_eq_dispatch {ops : List (RegistryOp H)}
    (h : run registryStep noRoutes ops = some w) (i : ℕ) (method : Verb) (path : Text) :
    ((w i).findHandler method path).map Prod.fst = dispatch (journal ops i) method path :=
  (keeps_run h i).findHandler method path

/-- The path is registered twice, a pattern before it, and the registry is moved into another. -/
def movedRoutes : List (RegistryOp ℕ) :=
  [.addRoute 1 2 (ascii "/\x7bid\x7d") 10, .addRoute 1 2 (ascii "/a") 11,
    .addRoute 0 2 (ascii "/\x7bany\x7d") 12, .addRoute 1 2 (ascii "/a") 13, .mergeMove 0 1]

def movedRegistries : Registries ℕ :=
  (run registryStep noRoutes movedRoutes).getD noRoutes

theorem findHandler_movedRoutes :
    run registryStep noRoutes movedRoutes = some movedRegistries ∧
      ((movedRegistries 0).findHandler 2 (ascii "/a")).map Prod.fst =
        dispatch (journal movedRoutes 0) 2 (ascii "/a") ∧
      ((movedRegistries 0).findHandler 2 (ascii "/b")).map Prod.fst =
        dispatch (journal movedRoutes 0) 2 (ascii "/b") ∧
      dispatch (journal movedRoutes 0) 2 (ascii "/a") = .ok 13 ∧
      dispatch (journal movedRoutes 0) 2 (ascii "/b") = .ok 12 :=
  have hrun : run registryStep noRoutes movedRoutes = some movedRegistries := by rfl
  ⟨hrun, findHandler_eq_dispatch hrun 0 2 _, findHandler_eq_dispatch hrun 0 2 _, by rfl, by rfl⟩

end Histories

end Demiplane.Http

import Demiplane.Http.RoutePatterns
import Demiplane.Http.Server

/-!
Requests made from a template. A client puts values in the place of the names, adds a query and
sends a form; the server cuts the target, looks for a route, matches it and fills the context from
which the handler reads. What the handler reads is what the client put in.
-/

namespace Demiplane.Http

open Text Regex

variable {H C E : Type}

namespace Template

/-- The path with a value in the place of each name. -/
def fill (t : Template) (values : List Text) : Text :=
  t.first ++ (values.zip (t.rest.map Prod.snd)).flatMap fun e => e.1 ++ e.2

/-- A value ends where the template goes on with a `/` or ends itself. -/
def Separated (t : Template) : Prop := Regex.Separated 47 (t.rest.map Prod.snd)

end Template

/-- What a client puts into a request: values without `/` and `?`, and the entries of a query and
of a form, without the characters that separate them. -/
structure Link (t : Template) where
  values : List Text
  query : AList fun _ : Text => Text
  form : AList fun _ : Text => Text
  length_values : values.length = t.rest.length
  value_plain : ∀ v ∈ values, v ≠ [] ∧ 47 ∉ v ∧ 63 ∉ v
  query_key : ∀ e ∈ query.entries, 38 ∉ e.1 ∧ 61 ∉ e.1
  query_value : ∀ e ∈ query.entries, 38 ∉ e.2
  form_key : ∀ e ∈ form.entries, 38 ∉ e.1 ∧ 61 ∉ e.1
  form_value : ∀ e ∈ form.entries, 38 ∉ e.2

namespace Link

variable {t : Template} (l : Link t)

def target : Text := t.fill l.values ++ 63 :: joinPairs l.query.entries

def request (method : Verb) (version : ℕ) (fields : List (Text × Text)) : Request :=
  ⟨method, l.target, version, fields, joinPairs l.form.entries⟩

theorem splits : t.Splits (t.fill l.values) l.values :=
  ⟨by simpa using l.length_values, rfl, fun v hv => ⟨(l.value_plain v hv).1,
    (l.value_plain v hv).2.1⟩⟩

/-- The query begins at the only `?` that is not part of it. -/
theorem queryMark_not_mem_fill (hplain : ∀ text ∈ t.literals, PlainText text) :
    63 ∉ t.fill l.values := by
  have hmark : ∀ text ∈ t.literals, 63 ∉ text := fun text htext hmem =>
    hplain text htext 63 hmem (by decide)
  obtain ⟨hfirst, hrest⟩ := List.forall_mem_cons.mp hmark
  simp only [Template.fill, List.mem_append, List.mem_flatMap, not_or, not_exists, not_and]
  refine ⟨hfirst, fun e he => ⟨?_, ?_⟩⟩
  · exact (l.value_plain e.1 (List.of_mem_zip he).1).2.2
  · exact hrest e.2 (List.of_mem_zip he).2

end Link

/-! ### The route -/

/-- The patterns of a registry come before those added later. -/
theorem findParametric_append {method : Verb} {path : Text} {routes : List (RouteInfo H)}
    (h : (RouteRegistry.findParametric method path routes).toOption = none)
    (more : List (RouteInfo H)) :
    RouteRegistry.findParametric method path (routes ++ more) =
      RouteRegistry.findParametric method path more := by
  induction routes with
  | nil => rfl
  | cons route routes ih =>
    rw [RouteRegistry.findParametric] at h
    rw [List.cons_append, RouteRegistry.findParametric]
    split_ifs at h ⊢
    · exact ih h
    · cases hmatch : matchRoute route path with
      | some params => rw [hmatch] at h; cases h
      | none => rw [hmatch] at h; exact ih h

/-- A pattern that does not match changes nothing. -/
theorem findParametric_concat {method : Verb} {path : Text} {route : RouteInfo H}
    (h : route.method ≠ method ∨ matchRoute route path = none) (routes : List (RouteInfo H)) :
    RouteRegistry.findParametric method path (routes ++ [route]) =
      RouteRegistry.findParametric method path routes := by
  induction routes with
  | nil =>
    simp only [List.nil_append, RouteRegistry.findParametric]
    split_ifs with hmethod
    · rfl
    · rw [h.resolve_left hmethod]
  | cons first routes ih =>
    rw [List.cons_append, RouteRegistry.findParametric, RouteRegistry.findParametric, ih]

namespace Template

variable {t : Template}

/-- The only way to read a filled path gives the values back. -/
theorem matchRoute_fill (hsep : t.Separated) (method : Verb) (handler : H) {path : Text}
    {values : List Text} (hsplit : t.Splits path values) :
    ∃ params, matchRoute (t.plainRoute method handler) path = some params ∧
      t.Binds values params := by
  rw [matchRoute_plainRoute]
  obtain ⟨captures, hcaptures⟩ :=
    Option.isSome_iff_exists.mp (regexMatch_plain_isSome.mpr ⟨values, hsplit⟩)
  obtain ⟨parts, hparts, hbound⟩ := split_of_regexMatch hcaptures
  obtain rfl := Split.unique hsep hparts hsplit
  refine ⟨_, by rw [hcaptures]; rfl, t.binds_bindParams ?_ hbound⟩
  simpa [names] using hsplit.length

theorem isParametricPath_path : isParametricPath t.path = !t.rest.isEmpty := by
  have hfirst : 123 ∉ t.first := t.first_braceFree.1
  cases hrest : t.rest with
  | nil => simpa [isParametricPath, path, hrest] using hfirst
  | cons e rest => simp [isParametricPath, path, hrest, segment]

/-- The registry with the route of a template: a path if there is no name in it, else a pattern. -/
theorem addRoute_eq (hplain : ∀ text ∈ t.literals, PlainText text) (r : RouteRegistry H)
    (method : Verb) (handler : H) :
    r.addRoute method t.path handler = .ok
      (if t.rest.isEmpty then
        { r with exactRoutes := r.exactRoutes.insert (makeRouteKey method t.path) handler }
      else { r with parametricRoutes := r.parametricRoutes ++ [t.plainRoute method handler] }) := by
  rw [RouteRegistry.addRoute, isParametricPath_path, t.createParametricRoute_plain hplain]
  cases t.rest with
  | nil => rfl
  | cons e rest => rfl

section AddRoute

variable {r r' : RouteRegistry H} {method : Verb} {handler : H}
  (hplain : ∀ text ∈ t.literals, PlainText text)
  (hadd : r.addRoute method t.path handler = .ok r')

include hplain hadd

/-- A route whose path nothing else answers for takes every filled path, with the values. -/
theorem findHandler_fill (hsep : t.Separated) {values : List Text}
    (hsplit : t.Splits (t.fill values) values)
    (hfree : (r.findHandler method (t.fill values)).toOption = none) :
    ∃ params, r'.findHandler method (t.fill values) = .ok (handler, params) ∧
      t.Binds values params := by
  rw [addRoute_eq hplain] at hadd
  obtain rfl := Except.ok.inj hadd
  cases hrest : t.rest with
  | nil =>
    have hnames : t.names = [] := by rw [names, hrest, List.map_nil]
    have hfill : t.fill values = t.path := by simp [fill, path, hrest]
    refine ⟨∅, ?_, ?_⟩
    · rw [hfill, List.isEmpty_nil, if_pos rfl, RouteRegistry.findHandler, AList.lookup_insert]
    · rw [Binds, hnames]
      exact ⟨by simp, fun name hname => absurd hname Finmap.notMem_empty⟩
  | cons e rest =>
    obtain ⟨params, hparams, hbinds⟩ := matchRoute_fill hsep method handler hsplit
    refine ⟨params, ?_, hbinds⟩
    rw [if_neg (by simp)]
    rw [RouteRegistry.findHandler] at hfree ⊢
    cases hexact : r.exactRoutes.lookup (makeRouteKey method (t.fill values)) with
    | some found => rw [hexact] at hfree; cases hfree
    | none =>
      rw [hexact] at hfree
      dsimp only at hfree ⊢
      rw [findParametric_append hfree, RouteRegistry.findParametric, if_neg (by simp [plainRoute]),
        hparams]
      rfl

/-- No other request notices the new route. -/
theorem findHandler_other {method' : Verb} {path : Text}
    (hother : method' ≠ method ∨ ¬ ∃ values, t.Splits path values) :
    r'.findHandler method' path = r.findHandler method' path := by
  rw [addRoute_eq hplain] at hadd
  obtain rfl := Except.ok.inj hadd
  cases hrest : t.rest with
  | nil =>
    have hkey : makeRouteKey method' path ≠ makeRouteKey method t.path := by
      intro hkey
      obtain ⟨hmethod, hpath⟩ := makeRouteKey_inj.mp hkey
      refine hother.elim (· hmethod) (· ⟨[], ?_⟩)
      exact ⟨by simp [hrest], by simp [hpath, Template.path, hrest], by simp⟩
    rw [List.isEmpty_nil, if_pos rfl, RouteRegistry.findHandler, AList.lookup_insert_ne hkey]
    rfl
  | cons e rest =>
    have hunmatched : (t.plainRoute method handler).method ≠ method' ∨
        matchRoute (t.plainRoute method handler) path = none := by
      refine hother.imp Ne.symm fun hsplit => ?_
      rw [matchRoute_plainRoute, Option.map_eq_none_iff, ← Option.not_isSome_iff_eq_none]
      exact mt regexMatch_plain_isSome.mp hsplit
    rw [if_neg (by simp)]
    simp only [RouteRegistry.findHandler, findParametric_concat hunmatched]

end AddRoute

end Template

/-! ### What the handler reads -/

/-- Texts are read as they were put in, and numerals as the integers they are of. -/
structure Reads (get : {V : Type} → (Text → Option V) → Text → Option V) (name value : Text) :
    Prop where
  string : get convertString name = some value
  int : ∀ n, value = integer n → IntType.Holds ⟨true, 32⟩ n → get convertInt name = some n
  long : ∀ n, value = integer n → IntType.Holds ⟨true, 64⟩ n → get convertLong name = some n

theorem reads_lookup {params : Params} {name value : Text} (h : params.lookup name = some value) :
    Reads (fun convert name => (params.lookup name).bind convert) name value where
  string := by rw [h]; rfl
  int n hn hholds := by
    rw [h, Option.bind_some, hn]
    exact sto_integer hholds
  long n hn hholds := by
    rw [h, Option.bind_some, hn]
    exact sto_integer hholds

/-- What a handler reads of a request. -/
structure Link.ReadBy {t : Template} (l : Link t) (fields : List (Text × Text))
    (ctx : RequestContext) : Prop where
  path : ∀ e ∈ t.names.zip l.values, Reads ctx.path e.1 e.2
  noPath : ∀ name ∉ t.names, ctx.path convertString name = none
  query : ∀ e ∈ l.query.entries, Reads ctx.query e.1 e.2
  noQuery : ∀ name ∉ l.query.keys, ctx.query convertString name = none
  header : ∀ name, ctx.header name = lastField fields name
  form : ctx.isFormData = true → ctx.formData = some l.form.toFinmap

theorem Link.readBy {t : Template} (l : Link t)
    (hplain : ∀ text ∈ t.literals, PlainText text) (method : Verb) (version : ℕ)
    (fields : List (Text × Text)) {params : Params} (hbinds : t.Binds l.values params) :
    l.ReadBy fields (makeContext (l.request method version fields) params) := by
  have hquery : (makeContext (l.request method version fields) params).queryParams =
      l.query.toFinmap := by
    change parseQueryParams (queryOf l.target) = _
    rw [Link.target, (target_parts _ (l.queryMark_not_mem_fill hplain)).2, parseQueryParams,
      parseQueryParamsLoop_eq, foldl_addPair_getlines l.query_key l.query_value]
  constructor
  case path => exact fun e he => reads_lookup (hbinds.1 e he)
  case noPath =>
    intro name hname
    have hnone : params.lookup name = none :=
      Finmap.lookup_eq_none.mpr fun hmem => hname (hbinds.2 name hmem)
    change (params.lookup name).bind _ = none
    rw [hnone, Option.bind_none]
  case query =>
    intro e he
    refine reads_lookup ?_
    rw [hquery, Finmap.lookup_toFinmap]
    exact List.mem_dlookup l.query.nodupKeys he
  case noQuery =>
    intro name hname
    rw [RequestContext.query, hquery, Finmap.lookup_toFinmap, AList.lookup_eq_none.mpr hname]
    rfl
  case header => exact header_new _ _ _
  case form =>
    intro hform
    rw [RequestContext.formData, if_pos hform, parseFormDataBody, parseFormDataBodyLoop_eq]
    exact congrArg some (foldl_addPair_getlines l.form_key l.form_value)

/-- A request made from the template of a route is handled by its handler, which reads what the
client put in, as far as the path is not taken by a route before. All other requests are handled
as they were without it. -/
theorem link_roundTrip (t : Template) (hplain : ∀ text ∈ t.literals, PlainText text)
    (hsep : t.Separated) (r : RouteRegistry H) (method : Verb) (handler : H) :
    ∃ r', r.addRoute method t.path handler = .ok r' ∧
      ∀ (s : Server H C) (x : Exchange H C E), s.registry = r' →
        (∀ (l : Link t) (version : ℕ) (fields : List (Text × Text)), x.Calm →
          (r.findHandler method (t.fill l.values)).toOption = none →
            ∃ ctx, (s.handleRequest x (l.request method version fields)).events.filter
                Event.onConnection = [.handle handler ctx] ∧ l.ReadBy fields ctx) ∧
        ∀ req : Request, (req.method ≠ method ∨ ¬ ∃ values, t.Splits (pathOf req.target) values) →
          s.handleRequest x req = { s with registry := r }.handleRequest x req := by
  have hadd := Template.addRoute_eq hplain r method handler
  refine ⟨_, hadd, fun s x hs => ⟨fun l version fields hcalm hfree => ?_, fun req hother => ?_⟩⟩
  · obtain ⟨params, hfind, hbinds⟩ := Template.findHandler_fill hplain hadd hsep l.splits hfree
    refine ⟨_, s.handleRequest_found hcalm ?_, l.readBy hplain method version fields hbinds⟩
    rw [hs]
    change RouteRegistry.findHandler _ method (pathOf l.target) = _
    rw [Link.target, (target_parts _ (l.queryMark_not_mem_fill hplain)).1, hfind]
  · rw [Server.handleRequest, hs, Template.findHandler_other hplain hadd hother]
    rfl

/-- The fourth page of a post of the user 7. -/
def postLink : Link Template.posts where
  values := [ascii "7", ascii "x-1"]
  query := (∅ : AList fun _ : Text => Text).insert (ascii "page") (ascii "4")
  form := ∅
  length_values := rfl
  value_plain := by decide
  query_key := by decide
  query_value := by decide
  form_key := nofun
  form_value := nofun

/-- A server with the routes of a registry and no callbacks. -/
def bareServer (r : RouteRegistry H) : Server H C := ⟨r, [], [], [], [], [], [], []⟩

/-- Nothing is thrown. -/
def smooth : Exchange H C E where
  read := .endOfStream
  requestThrows _ := none
  handle _ _ := .ok (notFound [] 11)
  responseThrows _ := none
  writeThrows := none

theorem link_roundTrip_posts :
    postLink.target = ascii "/users/7/posts/x-1?page=4" ∧
      ∃ r' ctx, RouteRegistry.new.addRoute 1 Template.posts.path true = .ok r' ∧
        ((bareServer r' : Server Bool ℕ).handleRequest (smooth : Exchange Bool ℕ ℕ)
          (postLink.request 1 11 [])).events.filter Event.onConnection = [.handle true ctx] ∧
        ctx.path convertInt (ascii "id") = some 7 ∧
        ctx.query convertLong (ascii "page") = some 4 := by
  have htarget : postLink.target = ascii "/users/7/posts/x-1?page=4" := by decide
  obtain ⟨r', hadd, hserver⟩ := link_roundTrip (C := ℕ) (E := ℕ) Template.posts (by decide)
    ⟨rfl, .inl rfl⟩ RouteRegistry.new 1 true
  obtain ⟨ctx, hhandled, hread⟩ := (hserver (bareServer r') smooth rfl).1 postLink 11 []
    ⟨fun _ => nofun, fun _ => nofun⟩ rfl
  refine ⟨htarget, r', ctx, hadd, hhandled, ?_, ?_⟩
  · exact (hread.path (ascii "id", ascii "7") (by decide)).int 7 (by decide) (by decide)
  · exact (hread.query ⟨ascii "page", ascii "4"⟩ (by decide)).long 4 (by decide) (by decide)

end Demiplane.Http

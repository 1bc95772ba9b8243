import Mathlib.Data.List.Infix
import Demiplane.Http.RouteRegistry
import Demiplane.Text.Sto

/-!
The context of a request: what a handler reads. Its maps are filled from the request, from the
groups of the route and from the query, and a handler reads them as texts or as integers.
-/

namespace Demiplane.Http

open Text

/-- `boost::beast::http::request<string_body>`. -/
structure Request where
  method : Verb
  target : Text
  /-- The major and the minor number as in 11. -/
  version : ℕ
  /-- Names and values, in the order in which a loop visits them. -/
  fields : List (Text × Text)
  body : Text

/-- `::tolower`. -/
def toLower (c : UInt8) : UInt8 := if 65 ≤ c ∧ c ≤ 90 then c + 32 else c

/-- The name of a field as it is looked up. -/
def lowerName (name : Text) : Text := name.map toLower

/-- What stands before the first `?` of a target. -/
def pathOf (target : Text) : Text :=
  match target.findIdx? (· == 63) with
  | some queryPos => target.take queryPos
  | none => target

/-- What follows the first `?`. -/
def queryOf (target : Text) : Text :=
  match target.findIdx? (· == 63) with
  | some queryPos => target.drop (queryPos + 1)
  | none => []

structure RequestContext where
  request : Request
  pathParams : Params
  queryParams : Params
  headers : Params

/-- `convert_string<int>`. -/
def convertInt (value : Text) : Option ℤ := sto ⟨true, 32⟩ value

/-- `convert_string<long>`. -/
def convertLong (value : Text) : Option ℤ := sto ⟨true, 64⟩ value

/-- `convert_string<std::string>`. -/
def convertString (value : Text) : Option Text := some value

namespace RequestContext

def parseHeaders (fields : List (Text × Text)) : Params :=
  fields.foldl (fun headers field => headers.insert (lowerName field.1) field.2) ∅

/-- The constructor. -/
def new (request : Request) : RequestContext := ⟨request, ∅, ∅, parseHeaders request.fields⟩

def setPathParams (ctx : RequestContext) (params : Params) : RequestContext :=
  { ctx with pathParams := params }

def setQueryParams (ctx : RequestContext) (params : Params) : RequestContext :=
  { ctx with queryParams := params }

section Access

variable {V : Type} (ctx : RequestContext) (convert : Text → Option V)

/-- `path<T>`; `convert` is the `convert_string` of the type. -/
def path (name : Text) : Option V := (ctx.pathParams.lookup name).bind convert

def query (name : Text) : Option V := (ctx.queryParams.lookup name).bind convert

def header (name : Text) : Option Text := ctx.headers.lookup (lowerName name)

/-- Whether the value of a field has this text in it. -/
def headerHas (name text : Text) : Bool := (ctx.header name).any (text <:+: ·)

def isFormData : Bool :=
  ctx.headerHas (ascii "content-type") (ascii "application/x-www-form-urlencoded")

/-- A second call returns what the first one stored. -/
def formData : Option Params :=
  if ctx.isFormData then some (parseFormDataBody ctx.request.body) else none

end Access

end RequestContext

/-! ### Targets -/

/-- A target with a query, read back. -/
theorem target_parts {path : Text} (query : Text) (h : 63 ∉ path) :
    pathOf (path ++ 63 :: query) = path ∧ queryOf (path ++ 63 :: query) = query := by
  have hfind : (path ++ 63 :: query).findIdx? (· == 63) = some path.length := by
    have hpath : path.findIdx? (· == 63) = none := by
      rw [List.findIdx?_eq_none_iff]
      exact fun c hc => beq_false_of_ne fun heq => h (heq ▸ hc)
    simp [List.findIdx?_append, hpath, List.findIdx?_cons]
  simp [pathOf, queryOf, hfind]

/-! ### Fields -/

/-- The field that counts is the last one of its name, in whatever case. -/
def lastField (fields : List (Text × Text)) (name : Text) : Option Text :=
  (fields.reverse.find? fun field => lowerName field.1 == lowerName name).map Prod.snd

theorem lookup_parseHeaders (fields : List (Text × Text)) (name : Text) :
    (RequestContext.parseHeaders fields).lookup (lowerName name) = lastField fields name := by
  induction fields using List.reverseRecOn with
  | nil => rfl
  | append_singleton fields field ih =>
    rw [RequestContext.parseHeaders, List.foldl_append, List.foldl_cons, List.foldl_nil,
      lastField, List.reverse_append, List.reverse_singleton, List.singleton_append,
      List.find?_cons]
    by_cases hname : lowerName name = lowerName field.1
    · rw [hname, Finmap.lookup_insert, beq_self_eq_true]
      rfl
    · rw [Finmap.lookup_insert_of_ne _ hname, beq_false_of_ne (Ne.symm hname)]
      exact ih

/-- Setting the other maps leaves the fields as they are. -/
theorem header_new (request : Request) (path query : Params) (name : Text) :
    (((RequestContext.new request).setPathParams path).setQueryParams query).header name =
      lastField request.fields name :=
  lookup_parseHeaders request.fields name

end Demiplane.Http

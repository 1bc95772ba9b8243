import Mathlib.Data.Finmap
import Demiplane.Text.Getline

/-!
The parameters of a request: the query of its target and the body of a form, both of them
pairs of a key and a value with a `=` between them and a `&` between the pairs. The server and
the context of a request have a loop of their own each.
-/

namespace Demiplane.Http

open Text

/-- `std::unordered_map<std::string, std::string>`. -/
abbrev Params := Finmap fun _ : Text => Text

/-- The loop of `Server::parse_query_params`; 38 is the byte of `&` and 61 that of `=`. -/
def parseQueryParamsLoop (iss : Text) (params : Params) : Params :=
  match _h : getline 38 iss with
  | none => params
  | some (pair, iss) =>
      parseQueryParamsLoop iss <|
        match pair.findIdx? (· == 61) with
        | some eqPos => params.insert (pair.take eqPos) (pair.drop (eqPos + 1))
        | none => params
termination_by iss.length
decreasing_by exact length_of_getline _h

/-- `Server::parse_query_params`. -/
def parseQueryParams (query : Text) : Params := parseQueryParamsLoop query ∅

/-- The loop of `RequestContext::parse_form_data_body`. -/
def parseFormDataBodyLoop (stream : Text) (data : Params) : Params :=
  match _h : getline 38 stream with
  | none => data
  | some (pair, stream) =>
      parseFormDataBodyLoop stream <|
        match pair.findIdx? (· == 61) with
        | some eqPos =>
            let key := pair.take eqPos
            let value := pair.drop (eqPos + 1)
            data.insert key value
        | none => data
termination_by stream.length
decreasing_by exact length_of_getline _h

/-- `RequestContext::parse_form_data_body`, of a request with this body. -/
def parseFormDataBody (body : Text) : Params := parseFormDataBodyLoop body ∅

/-! ### The loops as folds over the pairs -/

/-- What one pair does to the parameters. -/
def addPair (params : Params) (pair : Text) : Params :=
  match pair.findIdx? (· == 61) with
  | some eqPos => params.insert (pair.take eqPos) (pair.drop (eqPos + 1))
  | none => params

theorem parseQueryParamsLoop_eq (iss : Text) (params : Params) :
    parseQueryParamsLoop iss params = (getlines 38 iss).foldl addPair params := by
  fun_induction parseQueryParamsLoop iss params with
  | case1 iss params h => rw [getlines_of_none h, List.foldl_nil]
  | case2 iss params pair rest h ih => rw [getlines_of_some h, List.foldl_cons, ih]; rfl

theorem parseFormDataBodyLoop_eq (stream : Text) (data : Params) :
    parseFormDataBodyLoop stream data = (getlines 38 stream).foldl addPair data := by
  fun_induction parseFormDataBodyLoop stream data with
  | case1 stream data h => rw [getlines_of_none h, List.foldl_nil]
  | case2 stream data pair rest h ih => rw [getlines_of_some h, List.foldl_cons, ih]; rfl

/-! ### Joined pairs -/

def joinPair (e : Σ _ : Text, Text) : Text := e.1 ++ 61 :: e.2

/-- The pairs in their order, with `&` between them. -/
def joinPairs (entries : List (Σ _ : Text, Text)) : Text := [38].intercalate (entries.map joinPair)

/-- A key ends at the first `=`. -/
theorem addPair_joinPair (params : Params) {e : Σ _ : Text, Text} (h : 61 ∉ e.1) :
    addPair params (joinPair e) = params.insert e.1 e.2 := by
  have hfind : (joinPair e).findIdx? (· == 61) = some e.1.length := by
    have hkey : e.1.findIdx? (· == 61) = none := by
      rw [List.findIdx?_eq_none_iff]
      exact fun c hc => beq_false_of_ne fun heq => h (heq ▸ hc)
    simp [joinPair, List.findIdx?_append, hkey, List.findIdx?_cons]
  simp only [addPair, hfind]
  simp [joinPair]

theorem lookup_foldl_insert {V : Type*} (entries : List (Σ _ : Text, V))
    (params : Finmap fun _ : Text => V) (k : Text) (h : entries.NodupKeys) :
    (entries.foldl (fun p e => p.insert e.1 e.2) params).lookup k =
      (entries.dlookup k).or (params.lookup k) := by
  induction entries generalizing params with
  | nil => rfl
  | cons e entries ih =>
    obtain ⟨hnot, hrest⟩ := List.nodupKeys_cons.1 h
    rw [List.foldl_cons, ih _ hrest]
    by_cases hk : k = e.1
    · subst hk
      rw [List.dlookup_eq_none.2 hnot, Finmap.lookup_insert, List.dlookup_cons_eq]
      rfl
    · rw [Finmap.lookup_insert_of_ne _ hk, List.dlookup_cons_ne _ _ hk]

/-- Entries with keys of their own make the map that they are the entries of. -/
theorem foldl_insert_entries (m : AList fun _ : Text => Text) :
    m.entries.foldl (fun p e => p.insert e.1 e.2) (∅ : Params) = m.toFinmap := by
  refine Finmap.ext_lookup fun k => ?_
  rw [lookup_foldl_insert _ _ _ m.nodupKeys, Finmap.lookup_empty, Option.or_none]
  rfl

theorem foldl_addPair_join {entries : List (Σ _ : Text, Text)} (params : Params)
    (h : ∀ e ∈ entries, (61 : UInt8) ∉ e.1) :
    (entries.map joinPair).foldl addPair params =
      entries.foldl (fun p e => p.insert e.1 e.2) params := by
  induction entries generalizing params with
  | nil => rfl
  | cons e entries ih =>
    rw [List.map_cons, List.foldl_cons, List.foldl_cons,
      addPair_joinPair _ (h e List.mem_cons_self), ih _ fun e he => h e (List.mem_cons_of_mem _ he)]

/-- Both loops read the pairs back, whatever their order; an `AList` is a map together with an
order of its entries. -/
theorem foldl_addPair_getlines {m : AList fun _ : Text => Text}
    (hkey : ∀ e ∈ m.entries, (38 : UInt8) ∉ e.1 ∧ (61 : UInt8) ∉ e.1)
    (hvalue : ∀ e ∈ m.entries, (38 : UInt8) ∉ e.2) :
    (getlines 38 (joinPairs m.entries)).foldl addPair ∅ = m.toFinmap := by
  have hlines : ∀ pair ∈ m.entries.map joinPair, (38 : UInt8) ∉ pair ∧ pair ≠ [] := by
    intro pair hpair
    obtain ⟨e, he, rfl⟩ := List.mem_map.1 hpair
    exact ⟨by simp [joinPair, (hkey e he).1, hvalue e he], by simp [joinPair]⟩
  rw [joinPairs, getlines_intercalate _ hlines, foldl_addPair_join _ fun e he => (hkey e he).2,
    foldl_insert_entries]

/-- Parsing inverts joining in both parsers, and on every text they agree. -/
theorem parse_joinPairs :
    (∀ m : AList fun _ : Text => Text,
      (∀ e ∈ m.entries, (38 : UInt8) ∉ e.1 ∧ (61 : UInt8) ∉ e.1) →
      (∀ e ∈ m.entries, (38 : UInt8) ∉ e.2) →
        parseQueryParams (joinPairs m.entries) = m.toFinmap ∧
          parseFormDataBody (joinPairs m.entries) = m.toFinmap) ∧
      ∀ input : Text, parseQueryParams input = parseFormDataBody input := by
  refine ⟨fun m hkey hvalue => ?_, fun input => ?_⟩
  · rw [parseQueryParams, parseFormDataBody, parseQueryParamsLoop_eq, parseFormDataBodyLoop_eq]
    exact ⟨foldl_addPair_getlines hkey hvalue, foldl_addPair_getlines hkey hvalue⟩
  · rw [parseQueryParams, parseFormDataBody, parseQueryParamsLoop_eq, parseFormDataBodyLoop_eq]

/-- Values may have a `=`, and keys and values may be empty. -/
def sampleParams : AList fun _ : Text => Text :=
  ⟨[⟨ascii "q", ascii "a=b"⟩, ⟨ascii "page", []⟩, ⟨[], ascii "x"⟩],
    by unfold List.NodupKeys; decide⟩

theorem parse_joinPairs_sample :
    parseQueryParams (ascii "q=a=b&page=&=x") = sampleParams.toFinmap ∧
      parseFormDataBody (ascii "q=a=b&page=&=x") = sampleParams.toFinmap :=
  parse_joinPairs.1 sampleParams (by decide) (by decide)

end Demiplane.Http

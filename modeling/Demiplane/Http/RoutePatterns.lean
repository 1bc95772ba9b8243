import Demiplane.Http.RouteRegistry
import Demiplane.Regex.Plain

/-!
Parametric routes. The path of such a route is a template: text and names in braces. It becomes a
pattern by putting a group in the place of each name, and everything else is left as it stands.

A template whose text has no character that means something to a pattern matches segment by
segment. Any other text is read as part of the pattern: a dot stands for every character there.
-/

namespace Demiplane.Http

open Text Regex

/-- Neither brace. -/
def BraceFree (t : Text) : Prop := 123 ∉ t ∧ 125 ∉ t

instance (t : Text) : Decidable (BraceFree t) := inferInstanceAs (Decidable (_ ∧ _))

/-- A path of text and of names in braces, each name with the text behind it. -/
structure Template where
  first : Text
  rest : List (Text × Text)
  first_braceFree : BraceFree first
  literal_braceFree : ∀ e ∈ rest, BraceFree e.2
  name_braceFree : ∀ e ∈ rest, e.1 ≠ [] ∧ BraceFree e.1
  distinct : (rest.map Prod.fst).Nodup

namespace Template

/-- A name in its braces and the text behind it. -/
def segment (e : Text × Text) : Text := 123 :: (e.1 ++ 125 :: e.2)

def path (t : Template) : Text := t.first ++ t.rest.flatMap segment

def names (t : Template) : List Text := t.rest.map Prod.fst

def literals (t : Template) : List Text := t.first :: t.rest.map Prod.snd

/-- The path consists of the text of the template, character for character, and of one part for
each name, which is not empty and has no `/`. -/
def Splits (t : Template) (path : Text) (parts : List Text) : Prop :=
  Split 47 t.first (t.rest.map Prod.snd) path parts

/-- Each name has its part, and nothing else is bound. -/
def Binds (t : Template) (parts : List Text) (params : Params) : Prop :=
  (∀ e ∈ t.names.zip parts, params.lookup e.1 = some e.2) ∧ ∀ name ∈ params, name ∈ t.names

/-- A route matches the paths that split, and binds the names to the parts. -/
def SegmentWise {H : Type} (t : Template) (route : RouteInfo H) : Prop :=
  ∀ path : Text, ((matchRoute route path).isSome ↔ ∃ parts, t.Splits path parts) ∧
    ∀ params, matchRoute route path = some params →
      ∃ parts, t.Splits path parts ∧ t.Binds parts params

end Template

/-! ### The names of a path -/

/-- No name begins where there is no brace. -/
theorem foundAt_of_ne {c : UInt8} (hc : c ≠ 123) (before t : Text) :
    foundAt paramExpression ⟨before, c :: t⟩ = none := by
  simp [foundAt, paramExpression, matchAt_char_cons, hc]

theorem regexSearch_of_not_mem {l : Text} (hl : 123 ∉ l) (before : Text) :
    regexSearch paramExpression before l = none := by
  induction l generalizing before with
  | nil => rfl
  | cons c l ih =>
    obtain ⟨hc, hl⟩ := not_or.mp (mt List.mem_cons.mpr hl)
    rw [regexSearch, foundAt_of_ne (Ne.symm hc), ih hl]
    rfl

/-- A name ends at the first closing brace. -/
theorem foundAt_name {name : Text} (hne : name ≠ []) (hname : 125 ∉ name) (before t : Text) :
    foundAt paramExpression ⟨before, 123 :: (name ++ 125 :: t)⟩ =
      some ⟨⟨before, 123 :: (name ++ 125 :: t)⟩,
        ⟨125 :: (name.reverse ++ 123 :: before), t⟩,
        Function.update noCaptures 1 (some name)⟩ := by
  have hmatch : matchAt paramExpression ⟨before, 123 :: (name ++ 125 :: t)⟩ noCaptures
      (fun y caps => some (y, caps)) =
        matchAt (someExcept [.single 125] 1) ⟨123 :: before, name ++ 125 :: t⟩ noCaptures
          fun y caps => matchAt (.char 125) y caps fun y caps => some (y, caps) := by
    simp [paramExpression, matchAt_char_cons]
  have hsome : matchAt paramExpression ⟨before, 123 :: (name ++ 125 :: t)⟩ noCaptures
      (fun y caps => some (y, caps)) ≠ none := by
    rw [hmatch]
    refine matchAt_someExcept_ne_none hne (forall_not_contains_single.mpr hname) ?_
    simp [matchAt_char_cons]
  obtain ⟨result, hresult⟩ := Option.ne_none_iff_exists'.mp hsome
  -- whatever is matched ends at a closing brace and has none, so it is the name
  rw [hmatch] at hresult
  obtain ⟨s, t', htext, -, hpart, hk⟩ := exists_of_matchAt_someExcept hresult
  have hs : 125 ∉ s := forall_not_contains_single.mp hpart
  cases t' with
  | nil => rw [matchAt_char_nil] at hk; cases hk
  | cons d t' =>
    rw [matchAt_char_cons] at hk
    split_ifs at hk with hd
    subst hd
    obtain ⟨rfl, rfl⟩ := append_mark_inj hname hs htext
    obtain rfl := Option.some.inj hk
    rw [foundAt, hmatch, hresult]
    rfl

/-- The first name of a path is found behind the text before it. -/
theorem regexSearch_name {l name : Text} (hl : 123 ∉ l) (hne : name ≠ []) (hname : 125 ∉ name)
    (before t : Text) :
    regexSearch paramExpression before (l ++ 123 :: (name ++ 125 :: t)) =
      some ⟨⟨l.reverse ++ before, 123 :: (name ++ 125 :: t)⟩,
        ⟨125 :: (name.reverse ++ 123 :: (l.reverse ++ before)), t⟩,
        Function.update noCaptures 1 (some name)⟩ := by
  induction l generalizing before with
  | nil =>
    rw [List.nil_append, regexSearch, foundAt_name hne hname]
    rfl
  | cons c l ih =>
    obtain ⟨hc, hl⟩ := not_or.mp (mt List.mem_cons.mpr hl)
    rw [List.cons_append, regexSearch, foundAt_of_ne (Ne.symm hc), Option.none_or, ih hl]
    simp

section Segments

variable {rest : List (Text × Text)}

theorem segments_cons (l : Text) (e : Text × Text) (rest : List (Text × Text)) :
    l ++ (e :: rest).flatMap Template.segment =
      l ++ 123 :: (e.1 ++ 125 :: (e.2 ++ rest.flatMap Template.segment)) := by
  simp [Template.segment]

theorem paramNamesLoop_eq {fuel : ℕ} {l : Text} (hfuel : rest.length ≤ fuel)
    (hl : 123 ∉ l) (hliteral : ∀ e ∈ rest, BraceFree e.2)
    (hname : ∀ e ∈ rest, e.1 ≠ [] ∧ BraceFree e.1) :
    paramNamesLoop paramExpression fuel (l ++ rest.flatMap Template.segment) =
      rest.map Prod.fst := by
  induction rest generalizing fuel l with
  | nil =>
    rw [List.flatMap_nil, List.append_nil]
    cases fuel with
    | zero => rfl
    | succ fuel => rw [paramNamesLoop, regexSearch_of_not_mem hl]; rfl
  | cons e rest ih =>
    obtain ⟨fuel, rfl⟩ := Nat.exists_eq_succ_of_ne_zero (Nat.ne_zero_of_lt hfuel)
    obtain ⟨he, hname⟩ := List.forall_mem_cons.mp hname
    obtain ⟨hbehind, hliteral⟩ := List.forall_mem_cons.mp hliteral
    rw [segments_cons, paramNamesLoop, regexSearch_name hl he.1 he.2.2]
    simp only [Function.update_self, Option.getD_some, List.map_cons]
    rw [ih (Nat.le_of_succ_le_succ hfuel) hbehind.1 hliteral hname]

theorem regexReplaceLoop_eq {fmt : Text} {fuel : ℕ} {l : Text} (hfuel : rest.length ≤ fuel)
    (before : Text) (hl : 123 ∉ l) (hliteral : ∀ e ∈ rest, BraceFree e.2)
    (hname : ∀ e ∈ rest, e.1 ≠ [] ∧ BraceFree e.1) :
    regexReplaceLoop paramExpression fmt fuel before (l ++ rest.flatMap Template.segment) =
      l ++ (rest.map Prod.snd).flatMap (fmt ++ ·) := by
  induction rest generalizing fuel l before with
  | nil =>
    rw [List.flatMap_nil, List.append_nil, List.map_nil, List.flatMap_nil, List.append_nil]
    cases fuel with
    | zero => rfl
    | succ fuel => rw [regexReplaceLoop, regexSearch_of_not_mem hl]
  | cons e rest ih =>
    obtain ⟨fuel, rfl⟩ := Nat.exists_eq_succ_of_ne_zero (Nat.ne_zero_of_lt hfuel)
    obtain ⟨he, hname⟩ := List.forall_mem_cons.mp hname
    obtain ⟨hbehind, hliteral⟩ := List.forall_mem_cons.mp hliteral
    rw [segments_cons, regexReplaceLoop, regexSearch_name hl he.1 he.2.2]
    simp only
    rw [ih (Nat.le_of_succ_le_succ hfuel) _ hbehind.1 hliteral hname]
    simp

end Segments

/-! ### The route of a template -/

namespace Template

variable (t : Template)

theorem rest_length_le_path : t.rest.length ≤ t.path.length := by
  have hsegments : t.rest.length ≤ (t.rest.flatMap segment).length := by
    induction t.rest with
    | nil => exact Nat.zero_le _
    | cons e rest ih =>
      simp only [List.flatMap_cons, List.length_append, List.length_cons, segment]
      omega
  rw [path, List.length_append]
  omega

theorem routePattern_path :
    routePattern t.path = plainPattern 47 t.first (t.rest.map Prod.snd) := by
  rw [routePattern, regexReplace, path, regexReplaceLoop_eq
    (by simpa [path] using t.rest_length_le_path) [] t.first_braceFree.1 t.literal_braceFree
    t.name_braceFree]
  rfl

/-- The route of a template without special characters. -/
def plainRoute {H : Type} (method : Verb) (handler : H) : RouteInfo H :=
  ⟨method, t.path, plainPattern 47 t.first (t.rest.map Prod.snd), t.names, handler, true,
    some ⟨plainRegex 47 t.first (t.rest.map Prod.snd), t.rest.length⟩⟩

theorem createParametricRoute_plain {H : Type} (h : ∀ l ∈ t.literals, PlainText l)
    (method : Verb) (handler : H) :
    createParametricRoute method t.path handler = .ok (t.plainRoute method handler) := by
  obtain ⟨hfirst, hrest⟩ := List.forall_mem_cons.mp h
  have hnames : paramNamesLoop paramExpression t.path.length t.path = t.names :=
    paramNamesLoop_eq t.rest_length_le_path t.first_braceFree.1 t.literal_braceFree
      t.name_braceFree
  rw [createParametricRoute_eq, routePattern_path, hnames,
    compile_plainPattern (by decide) hfirst hrest, List.length_map]
  rfl

/-- The loop over the names is a loop over the names with their parts. -/
theorem bindParams_eq {names parts : List Text} {captures : Captures}
    (hlength : parts.length = names.length)
    (h : ∀ j (hj : j < parts.length), captures (j + 1) = some parts[j]) :
    bindParams names names.length captures =
      ((names.zip parts).map fun e => (⟨e.1, e.2⟩ : Σ _ : Text, Text)).foldl
        (fun params e => params.insert e.1 e.2) ∅ := by
  have hentries : names.zipIdx.map
      (fun e => (⟨e.1, (captures (e.2 + 1)).getD []⟩ : Σ _ : Text, Text)) =
        (names.zip parts).map fun e => ⟨e.1, e.2⟩ := by
    refine List.ext_getElem (by simp [hlength]) fun i hi _ => ?_
    have hi : i < parts.length := by simpa [hlength] using hi
    simp [h i hi]
  rw [← hentries, bindParams, List.take_length, List.foldl_map]

theorem binds_bindParams {parts : List Text} {captures : Captures}
    (hlength : parts.length = t.names.length)
    (h : ∀ j (hj : j < parts.length), captures (j + 1) = some parts[j]) :
    t.Binds parts (bindParams t.names t.names.length captures) := by
  have hkeys : ((t.names.zip parts).map fun e => (⟨e.1, e.2⟩ : Σ _ : Text, Text)).keys =
      t.names := by
    rw [List.keys, List.map_map]
    exact List.map_fst_zip hlength.ge
  have hnodup : ((t.names.zip parts).map fun e =>
      (⟨e.1, e.2⟩ : Σ _ : Text, Text)).NodupKeys := by
    rw [List.NodupKeys, hkeys]
    exact t.distinct
  rw [Binds, bindParams_eq hlength h]
  refine ⟨fun e he => ?_, fun name hname => ?_⟩
  · rw [lookup_foldl_insert _ _ _ hnodup]
    have hlookup := List.mem_dlookup hnodup (List.mem_map_of_mem he)
    rw [Option.mem_def] at hlookup
    rw [hlookup]
    rfl
  · rw [← Finmap.lookup_isSome, lookup_foldl_insert _ _ _ hnodup, Finmap.lookup_empty,
      Option.or_none, List.dlookup_isSome, hkeys] at hname
    exact hname

theorem matchRoute_plainRoute {H : Type} (method : Verb) (handler : H) (path : Text) :
    matchRoute (t.plainRoute method handler) path =
      (regexMatch (plainRegex 47 t.first (t.rest.map Prod.snd)) path).map fun captures =>
        bindParams t.names t.names.length captures := by
  simp [matchRoute, plainRoute, names]

/-- If no text of the template has a character that means something to a pattern, its route is
created and matches segment by segment. -/
theorem segmentWise_of_plain {H : Type} (h : ∀ l ∈ t.literals, PlainText l) (method : Verb)
    (handler : H) :
    ∃ route, createParametricRoute method t.path handler = .ok route ∧ t.SegmentWise route := by
  refine ⟨_, t.createParametricRoute_plain h method handler, fun path => ⟨?_, ?_⟩⟩
  · rw [matchRoute_plainRoute, Option.isSome_map]
    exact regexMatch_plain_isSome
  · intro params hparams
    rw [matchRoute_plainRoute] at hparams
    obtain ⟨captures, hcaptures, rfl⟩ := Option.map_eq_some_iff.mp hparams
    obtain ⟨parts, hsplit, hparts⟩ := split_of_regexMatch hcaptures
    refine ⟨parts, hsplit, t.binds_bindParams ?_ hparts⟩
    simpa [names] using hsplit.length

/-- `/users/\x7bid\x7d/posts/\x7bpost\x7d`. -/
def posts : Template where
  first := ascii "/users/"
  rest := [(ascii "id", ascii "/posts/"), (ascii "post", [])]
  first_braceFree := by decide
  literal_braceFree := by decide
  name_braceFree := by decide
  distinct := by decide

theorem segmentWise_posts :
    (∀ l ∈ posts.literals, PlainText l) ∧
      posts.Splits (ascii "/users/7/posts/x-1") [ascii "7", ascii "x-1"] ∧
      ∃ route, createParametricRoute 2 posts.path 0 = .ok route ∧ posts.SegmentWise route :=
  ⟨by decide, ⟨by decide, by decide, by decide⟩, posts.segmentWise_of_plain (by decide) 2 0⟩

/-- `/a#b/\x7bid\x7d` with another character in the place of `#`. -/
def marked (c : UInt8) (hopen : c ≠ 123) (hclose : c ≠ 125) : Template where
  first := ascii "/a" ++ c :: ascii "b/"
  rest := [(ascii "id", [])]
  first_braceFree := by
    constructor
    · simpa [ascii, hopen.symm] using (by decide : 123 ∉ ascii "/ab/")
    · simpa [ascii, hclose.symm] using (by decide : 125 ∉ ascii "/ab/")
  literal_braceFree := by decide
  name_braceFree := by decide
  distinct := by decide

theorem splits_marked {c d : UInt8} {hopen : c ≠ 123} {hclose : c ≠ 125} :
    (∃ parts, (marked c hopen hclose).Splits (ascii "/a" ++ d :: ascii "b/1") parts) ↔ d = c := by
  constructor
  · rintro ⟨parts, hsplit⟩
    have hthird : some d = some c := congrArg (·[2]?) hsplit.text
    exact Option.some.inj hthird
  · rintro rfl
    exact ⟨[ascii "1"], rfl, rfl, by decide⟩

/-- What is seen of the route: it is refused, or it does not match the text with the character
itself, or it matches the text with an `x` instead. -/
def markMisread (c : UInt8) : Bool :=
  match createParametricRoute 2 (ascii "/a" ++ c :: ascii "b/\x7bid\x7d") 0 with
  | .error _ => true
  | .ok route =>
      !(matchRoute route (ascii "/a" ++ c :: ascii "b/1")).isSome ||
        (matchRoute route (ascii "/axb/1")).isSome

/-- Each of the characters alone is misread, so the condition cannot leave one of them out. -/
theorem not_segmentWise_marked {c : UInt8} (hc : c ∈ syntaxCharacters) (hopen : c ≠ 123)
    (hclose : c ≠ 125) :
    ¬ ∃ route, createParametricRoute 2 (marked c hopen hclose).path 0 = .ok route ∧
      (marked c hopen hclose).SegmentWise route := by
  have hall : syntaxCharacters.all (fun c => c == 123 || c == 125 || markMisread c) = true := by
    decide
  have hmisread : markMisread c = true := by
    simpa [hopen, hclose] using List.all_eq_true.mp hall c hc
  rintro ⟨route, hroute, hsegments⟩
  have hx : c ≠ 'x'.toUInt8 := fun h => absurd (h ▸ hc) (by decide)
  have hpath : (marked c hopen hclose).path =
      ascii "/a" ++ c :: ascii "b/\x7bid\x7d" := rfl
  rw [hpath] at hroute
  rw [markMisread, hroute, Bool.or_eq_true, Bool.not_eq_true'] at hmisread
  rcases hmisread with hself | hother
  · have hmatch := (hsegments _).1.mpr (splits_marked.mpr rfl)
    rw [hself] at hmatch
    exact Bool.noConfusion hmatch
  · exact hx (splits_marked.mp ((hsegments _).1.mp hother)).symm

/-- `/a.b/\x7bid\x7d`. -/
def dotted : Template where
  first := ascii "/a.b/"
  rest := [(ascii "id", [])]
  first_braceFree := by decide
  literal_braceFree := by decide
  name_braceFree := by decide
  distinct := by decide

/-- The route of `/a.b/\x7bid\x7d` also takes `/axb/1`. -/
theorem dotted_matches_other_text :
    ∃ route, createParametricRoute 2 dotted.path 0 = .ok route ∧
      (matchRoute route (ascii "/axb/1")).isSome = true ∧
      (¬ ∃ parts, dotted.Splits (ascii "/axb/1") parts) ∧ ¬ dotted.SegmentWise route := by
  have hnot : ¬ ∃ parts, dotted.Splits (ascii "/axb/1") parts := by
    rintro ⟨parts, hsplit⟩
    have hthird : some 'x'.toUInt8 = some '.'.toUInt8 := congrArg (·[2]?) hsplit.text
    exact absurd hthird (by decide)
  have hmatch : ∀ route, createParametricRoute 2 dotted.path 0 = .ok route →
      (matchRoute route (ascii "/axb/1")).isSome = true := by
    rintro _ ⟨⟩
    decide
  refine ⟨_, rfl, hmatch _ rfl, hnot, fun h => hnot ?_⟩
  exact (h (ascii "/axb/1")).1.mp (hmatch _ rfl)

end Template

end Demiplane.Http

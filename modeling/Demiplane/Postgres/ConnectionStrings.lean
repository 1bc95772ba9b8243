import Demiplane.Postgres.ConnectionConfig

/-!
Connection strings read by libpq: which configurations come back from theirs, and what two
configurations with the same one have in common. A value is quoted if it has a space in it,
but libpq ends an unquoted value at any white space.
-/

namespace Demiplane.Postgres

open Text
open Conninfo (isSpace space apostrophe equals backslash escaped parse parseFrom Reads)

/-! ### Quoting -/

/-- The characters for which a value is quoted. -/
def isSpecial (c : UInt8) : Bool := c == backslash || c == apostrophe || c == space || c == equals

/-- White space in the value makes the value quoted. -/
def KeptWhole (value : Text) : Prop := value.any isSpace = true → value.any isSpecial = true

instance (value : Text) : Decidable (KeptWhole value) := inferInstanceAs (Decidable (_ → _))

theorem foldl_escapeStep (value acc : Text) (needsQuoting : Bool) :
    value.foldl escapeStep (acc, needsQuoting) =
      (acc ++ escaped value, needsQuoting || value.any isSpecial) := by
  induction value generalizing acc needsQuoting with
  | nil => simp [escaped]
  | cons c value ih =>
    have hcons : escaped (c :: value) =
        (if c = backslash ∨ c = apostrophe then [backslash, c] else [c]) ++ escaped value := rfl
    rw [List.foldl_cons, hcons, escapeStep]
    split_ifs with hescape hquote
    · have hspecial : isSpecial c = true := by rcases hescape with rfl | rfl <;> rfl
      rw [ih]
      simp [hspecial]
    · have hspecial : isSpecial c = true := by rcases hquote with rfl | rfl <;> rfl
      rw [ih]
      simp [hspecial]
    · have hplain : isSpecial c = false := by
        rw [not_or] at hescape hquote
        simp [isSpecial, hescape, hquote]
      rw [ih]
      simp [hplain]

theorem escaped_of_plain {value : Text} (h : value.any isSpecial = false) :
    escaped value = value := by
  rw [List.any_eq_false] at h
  have hcode : ∀ c ∈ value, (if c = backslash ∨ c = apostrophe then [backslash, c] else [c]) =
      [c] := by
    intro c hc
    refine if_neg ?_
    rintro (rfl | rfl)
    · exact h _ hc rfl
    · exact h _ hc rfl
  rw [escaped, List.flatMap_congr hcode, List.flatMap_singleton']

/-- A value is written as it is, or between apostrophes. -/
theorem escapeConnectionValue_eq (value : Text) :
    escapeConnectionValue value =
      if value = [] ∨ value.any isSpecial = true then
        apostrophe :: escaped value ++ [apostrophe]
      else value := by
  rw [escapeConnectionValue, foldl_escapeStep]
  by_cases hnil : value = []
  · subst hnil
    rfl
  · cases hspecial : value.any isSpecial with
    | true =>
      simp only [hnil, if_false, Bool.false_or, List.nil_append, if_true, or_true]
      rfl
    | false => simp [hnil, escaped_of_plain hspecial]

/-! ### One pair -/

def isWordChar (c : UInt8) : Bool := (65 ≤ c && c ≤ 90) || (97 ≤ c && c ≤ 122) || c == 95

/-- A key of letters and underscores. -/
structure IsWord (key : Text) : Prop where
  ne_nil : key ≠ []
  letters : ∀ c ∈ key, isWordChar c = true

theorem wordChar_plain {c : UInt8} (h : isWordChar c = true) :
    c ≠ equals ∧ isSpace c = false ∧ c ≠ apostrophe ∧ c ≠ backslash := by
  grind [isWordChar, isSpace]

def pairText (p : Text × Text) : Text := p.1 ++ equals :: escapeConnectionValue p.2

variable {p : Text × Text}

theorem reads_key (h : IsWord p.1) :
    Reads .between (p.1 ++ [equals]) (.beforeValue p.1) [] := by
  refine Conninfo.reads_name fun c hc => ?_
  obtain ⟨hequals, hspace, -⟩ := wordChar_plain (h.letters c hc)
  exact ⟨hequals, hspace⟩

/-- The value is read up to its closing apostrophe, or has been read and is not yet ended. -/
theorem reads_value {value : Text} (h : KeptWhole value) (key : Text) :
    Reads (.beforeValue key) (escapeConnectionValue value) .between [(key, value)] ∨
      Reads (.beforeValue key) (escapeConnectionValue value) (.unquoted key value) [] := by
  rw [escapeConnectionValue_eq]
  split_ifs with hquoted
  · exact .inl (Conninfo.reads_escaped key value)
  · rw [not_or, Bool.not_eq_true] at hquoted
    obtain ⟨hne, hspecial⟩ := hquoted
    have hspace : value.any isSpace = false := by
      by_contra hspace
      rw [h (by simpa using hspace)] at hspecial
      cases hspecial
    rw [List.any_eq_false] at hspace hspecial
    refine .inr (Conninfo.reads_unquoted hne fun c hc => ⟨by simpa using hspace c hc, ?_, ?_⟩)
    · rintro rfl
      exact hspecial _ hc rfl
    · rintro rfl
      exact hspecial _ hc rfl

theorem reads_pair (hkey : IsWord p.1) (hvalue : KeptWhole p.2) :
    Reads .between (pairText p) .between [p] ∨
      Reads .between (pairText p) (.unquoted p.1 p.2) [] := by
  have happend : pairText p = p.1 ++ [equals] ++ escapeConnectionValue p.2 := by simp [pairText]
  rw [happend]
  rcases reads_value hvalue p.1 with hread | hread
  · exact .inl ((reads_key hkey).append hread)
  · exact .inr ((reads_key hkey).append hread)

theorem reads_pair_space (hkey : IsWord p.1) (hvalue : KeptWhole p.2) :
    Reads .between (pairText p ++ [space]) .between [p] := by
  rcases reads_pair hkey hvalue with hread | hread
  · exact hread.append (Reads.byte rfl rfl)
  · exact hread.append (Reads.byte rfl rfl)

theorem parseFrom_pair (hkey : IsWord p.1) (hvalue : KeptWhole p.2) :
    parseFrom .between (pairText p) = some [p] := by
  rcases reads_pair hkey hvalue with hread | hread
  · exact hread.parseFrom_eq
  · exact hread.parseFrom_eq

/-- A value that is not kept whole is not read as what it is. -/
theorem keptWhole_of_parseFrom {rest : Text} {more : List (Text × Text)}
    (hkey : IsWord p.1)
    (hrest : ∀ c ∈ (rest.dropWhile isSpace).head?, c ≠ apostrophe ∧ c ≠ backslash)
    (h : parseFrom .between (pairText p ++ rest) = some (p :: more)) : KeptWhole p.2 := by
  intro hspace
  by_contra hspecial
  rw [Bool.not_eq_true] at hspecial
  have hne : p.2 ≠ [] := by
    intro hnil
    rw [hnil] at hspace
    cases hspace
  have happend : pairText p ++ rest = p.1 ++ [equals] ++ (p.2 ++ rest) := by
    simp [pairText, escapeConnectionValue_eq, hne, hspecial]
  rw [happend, reads_key hkey] at h
  obtain ⟨pairs, hpairs, hcons⟩ := Option.map_eq_some_iff.mp h
  have hplain : ∀ c ∈ p.2, c ≠ apostrophe ∧ c ≠ backslash := by
    rw [List.any_eq_false] at hspecial
    intro c hc
    constructor
    · rintro rfl
      exact hspecial _ hc rfl
    · rintro rfl
      exact hspecial _ hc rfl
  obtain ⟨value, last, rfl, hvalue⟩ :=
    Conninfo.parseFrom_unquoted_ne (List.any_eq_true.mp hspace) hplain hrest hpairs
  exact hvalue (congrArg Prod.snd (List.cons.inj hcons).1)

/-! ### All pairs -/

/-- The pairs with a space between them. -/
@[simp]
def joined : List (Text × Text) → Text
  | [] => []
  | [p] => pairText p
  | p :: q :: ps => pairText p ++ space :: joined (q :: ps)

theorem head?_joined {q : Text × Text} (hkey : IsWord q.1) (ps : List (Text × Text)) :
    ∀ c ∈ ((space :: joined (q :: ps)).dropWhile isSpace).head?,
      c ≠ apostrophe ∧ c ≠ backslash := by
  obtain ⟨c, key, hcons⟩ := List.exists_cons_of_ne_nil hkey.ne_nil
  obtain ⟨-, hspace, hplain⟩ := wordChar_plain (hkey.letters c (hcons ▸ List.mem_cons_self))
  obtain ⟨rest, hrest⟩ : ∃ rest, joined (q :: ps) = c :: rest := by
    cases ps <;> exact ⟨_, by simp [joined, pairText, hcons]; rfl⟩
  rw [hrest, List.dropWhile_cons_of_pos (by rfl), List.dropWhile_cons_of_neg (by simp [hspace])]
  rintro d hd
  obtain rfl : c = d := by simpa using hd
  exact hplain

/-- The pairs are read back exactly if all their values are kept whole. -/
theorem parseFrom_joined_iff {ps : List (Text × Text)} (hkeys : ∀ p ∈ ps, IsWord p.1) :
    parseFrom .between (joined ps) = some ps ↔ ∀ p ∈ ps, KeptWhole p.2 := by
  induction ps with
  | nil => simp [joined, parseFrom, Conninfo.finish]
  | cons p ps ih =>
    have hkey := hkeys p List.mem_cons_self
    cases ps with
    | nil =>
      rw [List.forall_mem_singleton]
      constructor
      · intro h
        have hend : parseFrom .between (pairText p ++ []) = some [p] := by rwa [List.append_nil]
        exact keptWhole_of_parseFrom hkey (by simp) hend
      · exact parseFrom_pair hkey
    | cons q ps =>
      have hrest := ih fun p' hp' => hkeys p' (List.mem_cons_of_mem _ hp')
      have hjoined : joined (p :: q :: ps) = pairText p ++ [space] ++ joined (q :: ps) := by
        simp [joined]
      rw [List.forall_mem_cons, ← hrest]
      constructor
      · intro h
        have hwhole : KeptWhole p.2 :=
          keptWhole_of_parseFrom hkey (head?_joined (hkeys q (by simp)) ps) h
        rw [hjoined, reads_pair_space hkey hwhole] at h
        obtain ⟨pairs, hpairs, hcons⟩ := Option.map_eq_some_iff.mp h
        exact ⟨hwhole, (List.cons.inj hcons).2 ▸ hpairs⟩
      · rintro ⟨hwhole, h⟩
        rw [hjoined, reads_pair_space hkey hwhole, h]
        rfl

theorem joined_append {ps : List (Text × Text)} (h : ps ≠ []) (qs : List (Text × Text)) :
    joined (ps ++ qs) = joined ps ++ qs.flatMap fun q => space :: pairText q := by
  induction ps using joined.induct with
  | case1 => exact absurd rfl h
  | case2 p =>
    induction qs generalizing p with
    | nil => simp
    | cons q qs ih =>
      have hrest := ih q (List.cons_ne_nil _ _)
      rw [List.singleton_append] at hrest
      simp [joined, hrest]
  | case3 p q ps ih =>
    have hrest := ih (List.cons_ne_nil _ _)
    rw [List.cons_append] at hrest
    simp [joined, hrest]

theorem flatMap_pairText_space {ps : List (Text × Text)} (h : ps ≠ []) :
    ps.flatMap (fun p => pairText p ++ [space]) = joined ps ++ [space] := by
  induction ps using joined.induct with
  | case1 => exact absurd rfl h
  | case2 p => simp [joined]
  | case3 p q ps ih => simp [joined, ← ih (List.cons_ne_nil _ _)]

/-! ### Connection strings -/

theorem present_append (fields more : List (Text × Option Text)) :
    present (fields ++ more) = present fields ++ present more :=
  List.filterMap_append

theorem present_cons (field field' : Text × Option Text) (fields : List (Text × Option Text)) :
    present (field :: field' :: fields) = present [field] ++ present (field' :: fields) :=
  present_append [field] _

theorem ascii_equals : ascii "=" = [equals] := rfl

theorem ascii_space : ascii " " = [space] := rfl

theorem credential_eq (key : String) (value : Text) :
    credential key value =
      (present [(ascii key, nonEmpty value)]).flatMap fun p => pairText p ++ [space] := by
  by_cases h : value = []
  · simp [credential, nonEmpty, present, h]
  · simp [credential, nonEmpty, present, pairText, ascii_equals, ascii_space, h]

theorem setting_eq (key : String) (value : Option Text) :
    setting key value = (present [(ascii key, value)]).flatMap fun p => space :: pairText p := by
  cases value <;> simp [setting, present, pairText, ascii_equals, ascii_space]

theorem ConnectionCredentials.toConnectionString_eq {c : ConnectionCredentials}
    (h : c.validate = .ok ()) :
    present c.fields ≠ [] ∧ c.toConnectionString = .ok (joined (present c.fields)) := by
  have hdbname : c.dbname ≠ [] := by
    intro hnil
    rw [validate, if_pos hnil] at h
    cases h
  have hne : present c.fields ≠ [] := by
    refine List.ne_nil_of_mem (a := (ascii "dbname", c.dbname)) ?_
    simp [fields, present, nonEmpty, hdbname]
  have hresult : credential "host" c.host ++ credential "port" c.port ++
      credential "dbname" c.dbname ++ credential "user" c.user ++
      credential "password" c.password = joined (present c.fields) ++ [space] := by
    rw [← flatMap_pairText_space hne]
    simp only [fields, present_cons, List.flatMap_append, ← credential_eq, List.append_assoc]
  refine ⟨hne, ?_⟩
  rw [toConnectionString, h]
  change Except.ok (if _ = _ then _ else _) = _
  rw [hresult, if_pos (List.getLast?_concat ..), List.dropLast_concat]

/-- The values of the two fields that are written as they are need no quotes. -/
theorem escapeConnectionValue_of_plain {value : Text} (hne : value ≠ [])
    (h : value.any isSpecial = false) : escapeConnectionValue value = value := by
  rw [escapeConnectionValue_eq, if_neg (by simp [hne, h])]

theorem sslMode_plain (mode : SslMode) :
    sslModeToString mode ≠ [] ∧ (sslModeToString mode).any isSpecial = false ∧
      KeptWhole (sslModeToString mode) := by
  cases mode <;> decide

theorem integer_plain (n : ℤ) :
    integer n ≠ [] ∧ (integer n).any isSpecial = false ∧ KeptWhole (integer n) := by
  have hdigit : ∀ c, isDigit c = true → isSpecial c = false ∧ isSpace c = false := by
    grind [isDigit, isSpecial, isSpace]
  have hplain : ∀ c ∈ integer n, isSpecial c = false ∧ isSpace c = false := by
    intro c hc
    unfold integer at hc
    split_ifs at hc
    · rcases List.mem_cons.mp hc with rfl | hmem
      · exact ⟨rfl, rfl⟩
      · exact hdigit c (isDigit_of_mem_decimal hmem)
    · exact hdigit c (isDigit_of_mem_decimal hc)
  refine ⟨?_, List.any_eq_false.mpr fun c hc => by simp [hplain c hc], fun hspace => ?_⟩
  · unfold integer
    split_ifs
    · exact List.cons_ne_nil _ _
    · exact decimal_ne_nil _
  · obtain ⟨c, hc, hcspace⟩ := List.any_eq_true.mp hspace
    rw [(hplain c hc).2] at hcspace
    cases hcspace

theorem ConnectionConfig.credentials_valid {c : ConnectionConfig} (h : c.validate = .ok ()) :
    c.credentials.validate = .ok () := by
  unfold validate at h
  cases hcredentials : c.credentials.validate with
  | error message =>
    rw [hcredentials] at h
    cases h
  | ok _ => rfl

theorem ConnectionConfig.toConnectionString_eq {c : ConnectionConfig}
    (h : c.validate = .ok ()) : c.toConnectionString = .ok (joined c.pairs) := by
  obtain ⟨hne, hcredentials⟩ := ConnectionCredentials.toConnectionString_eq (credentials_valid h)
  have hsslmode : ascii " sslmode=" ++ sslModeToString c.sslMode =
      setting "sslmode" (some (sslModeToString c.sslMode)) := by
    rw [setting, escapeConnectionValue_of_plain (sslMode_plain _).1 (sslMode_plain _).2.1]
    rfl
  have htimeout : (if 0 < c.connectTimeout then
      ascii " connect_timeout=" ++ integer c.connectTimeout.toInt else []) =
      setting "connect_timeout"
        (if 0 < c.connectTimeout then some (integer c.connectTimeout.toInt) else none) := by
    split_ifs
    · rw [setting, escapeConnectionValue_of_plain (integer_plain _).1 (integer_plain _).2.1]
      rfl
    · rfl
  have happlication : (if c.applicationName ≠ [] then
      ascii " application_name=" ++ escapeConnectionValue c.applicationName else []) =
      setting "application_name" (nonEmpty c.applicationName) := by
    by_cases hnil : c.applicationName = []
    · simp [nonEmpty, setting, hnil]
    · rw [nonEmpty, if_pos hnil, if_neg hnil]
      rfl
  have hextra : (c.extraOptions.flatMap fun option =>
      ascii " " ++ option.1 ++ ascii "=" ++ escapeConnectionValue option.2) =
      c.extraOptions.flatMap fun p => space :: pairText p := by
    simp [pairText, ascii_equals, ascii_space]
  have hoptions : (present c.options).flatMap (fun p => space :: pairText p) =
      setting "sslmode" (some (sslModeToString c.sslMode)) ++ setting "sslcert" c.sslCert ++
      setting "sslkey" c.sslKey ++ setting "sslrootcert" c.sslRootCert ++
      setting "connect_timeout"
        (if 0 < c.connectTimeout then some (integer c.connectTimeout.toInt) else none) ++
      setting "application_name" (nonEmpty c.applicationName) := by
    simp only [options, present_cons, List.flatMap_append, ← setting_eq, List.append_assoc]
  rw [pairs, fields, present_append, List.append_assoc, joined_append hne, List.flatMap_append,
    hoptions, ← hextra, ← hsslmode, ← htimeout, ← happlication, toConnectionString, h]
  change (c.credentials.toConnectionString >>= fun credentials => pure _) = _
  rw [hcredentials]
  change Except.ok _ = Except.ok _
  simp only [List.append_assoc]

/-! ### Reading a connection string back -/

def fieldKeys : List Text :=
  ["host", "port", "dbname", "user", "password", "sslmode", "sslcert", "sslkey", "sslrootcert",
    "connect_timeout", "application_name"].map ascii

theorem keys_fields (c : ConnectionConfig) : c.fields.map Prod.fst = fieldKeys := rfl

theorem mem_present {fields : List (Text × Option Text)} :
    p ∈ present fields ↔ (p.1, some p.2) ∈ fields := by
  constructor
  · intro h
    obtain ⟨⟨key, value⟩, hmem, hvalue⟩ := List.mem_filterMap.mp h
    obtain ⟨value, rfl, rfl⟩ := Option.map_eq_some_iff.mp hvalue
    exact hmem
  · intro h
    exact List.mem_filterMap.mpr ⟨_, h, rfl⟩

theorem isWord_pairs {c : ConnectionConfig} (h : ∀ option ∈ c.extraOptions, IsWord option.1) :
    ∀ p ∈ c.pairs, IsWord p.1 := by
  have hkeys : ∀ key ∈ fieldKeys, key ≠ [] ∧ key.all isWordChar = true := by decide
  intro p hp
  rcases List.mem_append.mp hp with hfield | hoption
  · have hkey : p.1 ∈ fieldKeys := by
      rw [← keys_fields c]
      exact List.mem_map_of_mem (mem_present.mp hfield)
    exact ⟨(hkeys _ hkey).1, List.all_eq_true.mp (hkeys _ hkey).2⟩
  · exact h p hoption

theorem zero_not_mem_pairText (hkey : IsWord p.1) (h : (0 : UInt8) ∉ p.2) :
    (0 : UInt8) ∉ pairText p := by
  have hname : (0 : UInt8) ∉ p.1 := by
    intro hmem
    cases hkey.letters 0 hmem
  have hescaped : (0 : UInt8) ∉ escaped p.2 := by
    intro hmem
    obtain ⟨c, hc, hcode⟩ := List.mem_flatMap.mp hmem
    have hzero : 0 = c := by
      split_ifs at hcode
      · exact (List.mem_pair.mp hcode).resolve_left (by decide)
      · exact List.mem_singleton.mp hcode
    exact h (hzero ▸ hc)
  have hvalue : (0 : UInt8) ∉ escapeConnectionValue p.2 := by
    rw [escapeConnectionValue_eq]
    split_ifs
    · rw [List.cons_append, List.mem_cons, List.mem_append, List.mem_singleton, not_or, not_or]
      exact ⟨by decide, hescaped, by decide⟩
    · exact h
  rw [pairText, List.mem_append, List.mem_cons, not_or, not_or]
  exact ⟨hname, by decide, hvalue⟩

theorem zero_not_mem_joined {ps : List (Text × Text)} (hkeys : ∀ p ∈ ps, IsWord p.1)
    (h : ∀ p ∈ ps, (0 : UInt8) ∉ p.2) : (0 : UInt8) ∉ joined ps := by
  induction ps using joined.induct with
  | case1 => exact List.not_mem_nil
  | case2 p => exact zero_not_mem_pairText (hkeys p (by simp)) (h p (by simp))
  | case3 p q ps ih =>
    have hfirst := zero_not_mem_pairText (hkeys p (by simp)) (h p (by simp))
    have hrest := ih (fun p' hp' => hkeys p' (List.mem_cons_of_mem _ hp'))
      fun p' hp' => h p' (List.mem_cons_of_mem _ hp')
    rw [joined, List.mem_append, List.mem_cons, not_or, not_or]
    exact ⟨hfirst, by decide, hrest⟩

theorem parse_joined {ps : List (Text × Text)} (hkeys : ∀ p ∈ ps, IsWord p.1)
    (h : ∀ p ∈ ps, (0 : UInt8) ∉ p.2) : parse (joined ps) = parseFrom .between (joined ps) := by
  have hzero := zero_not_mem_joined hkeys h
  rw [parse, List.takeWhile_eq_self_iff.mpr]
  intro c hc
  simpa using fun hnul : c = 0 => hzero (hnul ▸ hc)

/-- A valid configuration comes back from its connection string exactly if every value with
white space in it has also one of the characters that it is quoted for. -/
theorem connectionString_roundtrip_iff (c : ConnectionConfig) (hvalid : c.validate = .ok ())
    (hkeys : ∀ option ∈ c.extraOptions, IsWord option.1)
    (hzero : ∀ p ∈ c.pairs, (0 : UInt8) ∉ p.2) :
    (∃ text, c.toConnectionString = .ok text ∧ parse text = some c.pairs) ↔
      ∀ p ∈ c.pairs, KeptWhole p.2 := by
  have hwords := isWord_pairs hkeys
  rw [← parseFrom_joined_iff hwords, ← parse_joined hwords hzero, c.toConnectionString_eq hvalid]
  constructor
  · rintro ⟨text, htext, hparse⟩
    obtain rfl := Except.ok.inj htext
    exact hparse
  · intro hparse
    exact ⟨_, rfl, hparse⟩

/-- A configuration for a database on this host, with the given password. -/
def localConfig (password searchPath : String) : ConnectionConfig where
  credentials := ⟨ascii "localhost", ascii "5432", ascii "app", ascii "admin", ascii password⟩
  priority := 0
  connectTimeout := 30
  statementTimeout := 0
  idleInTransactionTimeout := 0
  lockTimeout := 0
  sslMode := .prefer
  sslCert := none
  sslKey := none
  sslRootCert := none
  applicationName := []
  searchPath := ascii searchPath
  extraOptions := []

theorem roundtrip_quotedPassword :
    ∃ text, (localConfig "it's = \\ a\tb" "public").toConnectionString = .ok text ∧
      parse text = some (localConfig "it's = \\ a\tb" "public").pairs :=
  (connectionString_roundtrip_iff (localConfig "it's = \\ a\tb" "public") (by decide)
    (fun _ hoption => absurd hoption List.not_mem_nil) (by decide)).mpr (by decide)

/-- A password with a tab in it: what is behind the tab is taken for a name. -/
theorem not_roundtrip_tab :
    (localConfig "a\tb" "public").validate = .ok () ∧
    (∀ p ∈ (localConfig "a\tb" "public").pairs, (0 : UInt8) ∉ p.2) ∧
    ∃ text, (localConfig "a\tb" "public").toConnectionString = .ok text ∧ parse text = none :=
  ⟨by decide, by decide, _, ConnectionConfig.toConnectionString_eq (by decide), by decide +kernel⟩

/-! ### Configurations with the same connection string -/

/-- No white space but spaces. -/
def OnlySpaces (t : Text) : Prop := ∀ c ∈ t, isSpace c = true → c = space

-- over the bytes of the text, not over all bytes
instance (t : Text) : Decidable (OnlySpaces t) :=
  List.decidableBAll (fun c => isSpace c = true → c = space) t

theorem OnlySpaces.keptWhole {t : Text} (h : OnlySpaces t) : KeptWhole t := by
  intro hspace
  obtain ⟨c, hc, hcspace⟩ := List.any_eq_true.mp hspace
  refine List.any_eq_true.mpr ⟨c, hc, ?_⟩
  rw [h c hc hcspace]
  rfl

namespace ConnectionConfig

def strings (c : ConnectionConfig) : List Text :=
  [c.credentials.host, c.credentials.port, c.credentials.dbname, c.credentials.user,
    c.credentials.password, c.applicationName, c.searchPath] ++
    c.sslCert.toList ++ c.sslKey.toList ++ c.sslRootCert.toList

/-- What a connection string says. -/
def sent (c : ConnectionConfig) :
    ConnectionCredentials × SslMode × Option Text × Option Text × Option Text × Int64 × Text :=
  (c.credentials, c.sslMode, c.sslCert, c.sslKey, c.sslRootCert, c.connectTimeout,
    c.applicationName)

/-- What a session is configured with and no connection string says. -/
def unsent (c : ConnectionConfig) : Int64 × Int64 × Int64 × Text :=
  (c.statementTimeout, c.idleInTransactionTimeout, c.lockTimeout, c.searchPath)

end ConnectionConfig

/-- Fields with the same keys, no key twice, are known by those that have a value. -/
theorem present_injective {fields fields' : List (Text × Option Text)}
    (hkeys : fields.map Prod.fst = fields'.map Prod.fst) (hnodup : (fields.map Prod.fst).Nodup)
    (h : present fields = present fields') : fields = fields' := by
  induction fields generalizing fields' with
  | nil => exact (List.map_eq_nil_iff.mp hkeys.symm).symm
  | cons field fields ih =>
    obtain ⟨field', fields', rfl⟩ : ∃ f fs, fields' = f :: fs := by
      cases fields' with
      | nil => cases hkeys
      | cons f fs => exact ⟨f, fs, rfl⟩
    obtain ⟨key, value⟩ := field
    obtain ⟨key', value'⟩ := field'
    obtain ⟨rfl, htail⟩ : key = key' ∧ fields.map Prod.fst = fields'.map Prod.fst :=
      List.cons.inj hkeys
    obtain ⟨hkey, hrest⟩ := List.nodup_cons.mp hnodup
    -- a value that only one of them has would be that of a later field with the same key
    have hlater : ∀ {v : Text} {fs : List (Text × Option Text)},
        fs.map Prod.fst = fields.map Prod.fst → (key, v) ∉ present fs := by
      intro v fs hfs hmem
      have hfirst : key ∈ fs.map Prod.fst := List.mem_map.mpr ⟨_, mem_present.mp hmem, rfl⟩
      exact hkey (hfs ▸ hfirst)
    cases value with
    | none =>
      cases value' with
      | none => exact congrArg _ (ih htail hrest h)
      | some v =>
        have hcons : present fields = (key, v) :: present fields' := h
        exact absurd (hcons ▸ List.mem_cons_self) (hlater rfl)
    | some v =>
      cases value' with
      | none =>
        have hcons : (key, v) :: present fields = present fields' := h
        exact absurd (hcons ▸ List.mem_cons_self) (hlater htail.symm)
      | some v' =>
        have hcons : (key, v) :: present fields = (key, v') :: present fields' := h
        obtain ⟨hfirst, hmore⟩ := List.cons.inj hcons
        rw [ih htail hrest hmore, (Prod.mk.inj hfirst).2]

theorem nonEmpty_eq_some {value value' : Text} (h : nonEmpty value = some value') :
    value = value' := by
  unfold nonEmpty at h
  split_ifs at h
  exact Option.some.inj h

theorem nonEmpty_injective {value value' : Text} (h : nonEmpty value = nonEmpty value') :
    value = value' := by
  unfold nonEmpty at h
  split_ifs at h with hnil hnil'
  · exact hnil.trans hnil'.symm
  · exact Option.some.inj h

theorem keptWhole_fields {c : ConnectionConfig} (h : ∀ t ∈ c.strings, OnlySpaces t) :
    ∀ p ∈ present c.fields, KeptWhole p.2 := by
  have hstring : ∀ {t v : Text}, t ∈ c.strings → nonEmpty t = some v → KeptWhole v :=
    fun hmem hv => nonEmpty_eq_some hv ▸ (h _ hmem).keptWhole
  have hoption : ∀ {o : Option Text} {v : Text}, (∀ t ∈ o.toList, t ∈ c.strings) → o = some v →
      KeptWhole v := by
    rintro o v hmem rfl
    exact (h v (hmem v (by simp))).keptWhole
  have hall : ∀ field ∈ c.fields, ∀ v, field.2 = some v → KeptWhole v := by
    simp only [ConnectionConfig.fields, ConnectionCredentials.fields, ConnectionConfig.options,
      List.cons_append, List.nil_append, List.forall_mem_cons]
    refine ⟨?_, ?_, ?_, ?_, ?_, ?_, ?_, ?_, ?_, ?_, ?_, nofun⟩
    · exact fun v => hstring (by simp [ConnectionConfig.strings])
    · exact fun v => hstring (by simp [ConnectionConfig.strings])
    · exact fun v => hstring (by simp [ConnectionConfig.strings])
    · exact fun v => hstring (by simp [ConnectionConfig.strings])
    · exact fun v => hstring (by simp [ConnectionConfig.strings])
    · rintro v hv
      obtain rfl := Option.some.inj hv
      exact (sslMode_plain c.sslMode).2.2
    · exact fun v => hoption (by simp +contextual [ConnectionConfig.strings])
    · exact fun v => hoption (by simp +contextual [ConnectionConfig.strings])
    · exact fun v => hoption (by simp +contextual [ConnectionConfig.strings])
    · rintro v hv
      split_ifs at hv
      obtain rfl := Option.some.inj hv
      exact (integer_plain _).2.2
    · exact fun v => hstring (by simp [ConnectionConfig.strings])
  intro p hp
  exact hall _ (mem_present.mp hp) p.2 rfl

theorem ConnectionConfig.connectTimeout_nonneg {c : ConnectionConfig} (h : c.validate = .ok ()) :
    0 ≤ c.connectTimeout.toInt := by
  by_contra hneg
  have hlt : c.connectTimeout < 0 := Int64.lt_iff_toInt_lt.mpr (not_le.mp hneg)
  have hcredentials := credentials_valid h
  simp only [validate, hcredentials, hlt, if_true] at h
  -- every path throws
  split_ifs at h <;> cases h

/-- Timeouts that are not negative are known by their numerals, a zero by having none. -/
theorem timeout_injective {s t : Int64} (hs : 0 ≤ s.toInt) (ht : 0 ≤ t.toInt)
    (h : (if 0 < s then some (integer s.toInt) else none) =
      if 0 < t then some (integer t.toInt) else none) : s = t := by
  have hzero : ∀ {r : Int64}, 0 ≤ r.toInt → ¬ 0 < r → r.toInt = 0 := by
    intro r hr hpos
    rw [Int64.lt_iff_toInt_lt] at hpos
    exact le_antisymm (not_lt.mp hpos) hr
  have hread : ∀ r : Int64, fromChars ⟨true, 64⟩ (integer r.toInt) = some r.toInt := fun r => by
    rw [fromChars_integer, if_pos ⟨r.le_toInt, r.toInt_lt⟩]
  split_ifs at h with hspos htpos htpos
  · have hinteger := hread s
    rw [Option.some.inj h, hread t] at hinteger
    exact (Int64.toInt_inj.mp (Option.some.inj hinteger)).symm
  · exact Int64.toInt_inj.mp ((hzero hs hspos).trans (hzero ht htpos).symm)

theorem sslModeToString_injective : Function.Injective sslModeToString := by
  intro mode mode'
  cases mode <;> cases mode' <;> decide

theorem fields_eq_iff {a b : ConnectionConfig} (ha : a.validate = .ok ())
    (hb : b.validate = .ok ()) : a.fields = b.fields ↔ a.sent = b.sent := by
  constructor
  · intro h
    simp only [ConnectionConfig.fields, ConnectionCredentials.fields, ConnectionConfig.options,
      List.cons_append, List.nil_append, List.cons.injEq, Prod.mk.injEq, true_and, and_true,
      Option.some.injEq] at h
    obtain ⟨hhost, hport, hdbname, huser, hpassword, hmode, hcert, hkey, hroot, htimeout,
      happlication⟩ := h
    have hcredentials : a.credentials = b.credentials :=
      ConnectionCredentials.ext (nonEmpty_injective hhost) (nonEmpty_injective hport)
        (nonEmpty_injective hdbname) (nonEmpty_injective huser) (nonEmpty_injective hpassword)
    rw [ConnectionConfig.sent, ConnectionConfig.sent, hcredentials,
      sslModeToString_injective hmode, hcert, hkey, hroot,
      timeout_injective (a.connectTimeout_nonneg ha) (b.connectTimeout_nonneg hb) htimeout,
      nonEmpty_injective happlication]
  · intro h
    simp only [ConnectionConfig.sent, Prod.mk.injEq] at h
    obtain ⟨hcredentials, hmode, hcert, hkey, hroot, htimeout, happlication⟩ := h
    simp only [ConnectionConfig.fields, ConnectionConfig.options, hcredentials, hmode, hcert, hkey,
      hroot, htimeout, happlication]

/-- Two configurations have the same connection string exactly if they agree in what it
says. -/
theorem toConnectionString_eq_iff {a b : ConnectionConfig} (ha : a.validate = .ok ())
    (hb : b.validate = .ok ()) (hoptions : a.extraOptions = [] ∧ b.extraOptions = [])
    (hastrings : ∀ t ∈ a.strings, OnlySpaces t) (hbstrings : ∀ t ∈ b.strings, OnlySpaces t) :
    a.toConnectionString = b.toConnectionString ↔ a.sent = b.sent := by
  have hpairs : ∀ {c : ConnectionConfig}, c.extraOptions = [] → c.pairs = present c.fields := by
    intro c hnil
    rw [ConnectionConfig.pairs, hnil, List.append_nil]
  have hparse : ∀ {c : ConnectionConfig}, (∀ t ∈ c.strings, OnlySpaces t) →
      c.extraOptions = [] → parseFrom .between (joined c.pairs) = some (present c.fields) := by
    intro c hstrings hnil
    have hwords : ∀ p ∈ c.pairs, IsWord p.1 := isWord_pairs (by simp [hnil])
    rw [← hpairs hnil]
    refine (parseFrom_joined_iff hwords).mpr ?_
    rw [hpairs hnil]
    exact keptWhole_fields hstrings
  rw [a.toConnectionString_eq ha, b.toConnectionString_eq hb, ← fields_eq_iff ha hb]
  constructor
  · intro htext
    have hsame := hparse hastrings hoptions.1
    rw [Except.ok.inj htext, hparse hbstrings hoptions.2] at hsame
    exact present_injective (keys_fields a) (keys_fields a ▸ by decide)
      (Option.some.inj hsame).symm
  · intro hfields
    rw [hpairs hoptions.1, hpairs hoptions.2, hfields]

/-- The connection string determines what a session is configured with unless the two
configurations differ in nothing but the timeouts of the session and its search path. -/
theorem session_determined_iff (a b : ConnectionConfig) (ha : a.validate = .ok ())
    (hb : b.validate = .ok ()) (hoptions : a.extraOptions = [] ∧ b.extraOptions = [])
    (hastrings : ∀ t ∈ a.strings, OnlySpaces t) (hbstrings : ∀ t ∈ b.strings, OnlySpaces t) :
    (a.toConnectionString = b.toConnectionString → a.sent = b.sent ∧ a.unsent = b.unsent) ↔
      (a.sent = b.sent → a.unsent = b.unsent) := by
  rw [toConnectionString_eq_iff ha hb hoptions hastrings hbstrings]
  exact ⟨fun h hsent => (h hsent).2, fun h hsent => ⟨hsent, h hsent⟩⟩

theorem onlySpaces_localConfig {password searchPath : String}
    (hpassword : OnlySpaces (ascii password)) (hsearchPath : OnlySpaces (ascii searchPath)) :
    ∀ t ∈ (localConfig password searchPath).strings, OnlySpaces t := by
  simp only [ConnectionConfig.strings, localConfig, Option.toList_none, List.append_nil,
    List.forall_mem_cons]
  exact ⟨by decide, by decide, by decide, by decide, hpassword, by decide, hsearchPath, nofun⟩

/-- Two passwords make two connection strings. -/
theorem session_determined_password :
    (localConfig "one" "public").toConnectionString ≠
      (localConfig "two" "public").toConnectionString := by
  intro htext
  have hsame := (session_determined_iff (localConfig "one" "public") (localConfig "two" "public")
    (by decide) (by decide) ⟨rfl, rfl⟩ (onlySpaces_localConfig (by decide) (by decide))
    (onlySpaces_localConfig (by decide) (by decide))).mpr (fun _ => rfl) htext
  have hpassword : ascii "one" = ascii "two" :=
    congrArg (fun sent => ConnectionCredentials.password sent.1) hsame.1
  exact absurd hpassword (by decide)

/-- The search path is not part of the connection string. -/
theorem not_session_determined_searchPath :
    (localConfig "secret" "public").validate = .ok () ∧
    (localConfig "secret" "tenant").validate = .ok () ∧
    (∀ t ∈ (localConfig "secret" "public").strings, OnlySpaces t) ∧
    (∀ t ∈ (localConfig "secret" "tenant").strings, OnlySpaces t) ∧
    (localConfig "secret" "public").toConnectionString =
      (localConfig "secret" "tenant").toConnectionString ∧
    (localConfig "secret" "public").searchPath ≠ (localConfig "secret" "tenant").searchPath := by
  have hvalid : (localConfig "secret" "public").validate = .ok () := by decide
  have hvalid' : (localConfig "secret" "tenant").validate = .ok () := by decide
  refine ⟨hvalid, hvalid', onlySpaces_localConfig (by decide) (by decide),
    onlySpaces_localConfig (by decide) (by decide), ?_, by decide⟩
  rw [ConnectionConfig.toConnectionString_eq hvalid, ConnectionConfig.toConnectionString_eq hvalid']
  rfl

end Demiplane.Postgres

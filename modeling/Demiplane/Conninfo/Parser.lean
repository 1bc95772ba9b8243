import Demiplane.Text.Decimal

/-!
Connection strings as libpq reads them: names and values, with `=` between them. White
space separates the pairs and ends a value that is not quoted; a backslash makes the next
character of a value stand for itself; a value that begins with an apostrophe goes on to
the next apostrophe. The parser reads one byte at a time, and what it has of the pair it
is in is its `Mode`.

A text is read in parts: `Reads` says what the parser makes of a part of a text, whatever
follows it.
-/

namespace Demiplane.Conninfo

/-! ### The parser -/

abbrev space : UInt8 := 32
abbrev apostrophe : UInt8 := 39
abbrev equals : UInt8 := 61
abbrev backslash : UInt8 := 92

/-- `isspace`. -/
def isSpace (c : UInt8) : Bool := c == 32 || (9 ≤ c && c ≤ 13)

inductive Mode where
  | between
  | name (acc : Text)
  | afterName (name : Text)
  | beforeValue (name : Text)
  | unquoted (name acc : Text)
  | unquotedEscape (name acc : Text)
  | quoted (name acc : Text)
  | quotedEscape (name acc : Text)
  | failed
  deriving DecidableEq, Repr

def next : Mode → UInt8 → Mode
  | .between, c =>
      if isSpace c then .between else if c = equals then .beforeValue [] else .name [c]
  | .name acc, c =>
      if c = equals then .beforeValue acc else if isSpace c then .afterName acc
      else .name (acc ++ [c])
  | .afterName name, c =>
      if c = equals then .beforeValue name else if isSpace c then .afterName name else .failed
  | .beforeValue name, c =>
      if isSpace c then .beforeValue name
      else if c = apostrophe then .quoted name []
      else if c = backslash then .unquotedEscape name []
      else .unquoted name [c]
  | .unquoted name acc, c =>
      if isSpace c then .between
      else if c = backslash then .unquotedEscape name acc
      else .unquoted name (acc ++ [c])
  | .unquotedEscape name acc, c => .unquoted name (acc ++ [c])
  | .quoted name acc, c =>
      if c = backslash then .quotedEscape name acc
      else if c = apostrophe then .between
      else .quoted name (acc ++ [c])
  | .quotedEscape name acc, c => .quoted name (acc ++ [c])
  | .failed, _ => .failed

/-- The pair that a byte ends. -/
def completed : Mode → UInt8 → List (Text × Text)
  | .unquoted name acc, c => if isSpace c then [(name, acc)] else []
  | .quoted name acc, c => if c = apostrophe then [(name, acc)] else []
  | _, _ => []

/-- The pair that the end of the text ends. A name has to be followed by `=`, and a quoted
value by an apostrophe. -/
def finish : Mode → Option (List (Text × Text))
  | .between => some []
  | .beforeValue name => some [(name, [])]
  | .unquoted name acc | .unquotedEscape name acc => some [(name, acc)]
  | .name _ | .afterName _ | .quoted _ _ | .quotedEscape _ _ | .failed => none

def parseFrom : Mode → Text → Option (List (Text × Text))
  | mode, [] => finish mode
  | mode, c :: t => (parseFrom (next mode c) t).map (completed mode c ++ ·)

/-- The pairs of a connection string, which is handed over as a C string. -/
def parse (t : Text) : Option (List (Text × Text)) := parseFrom .between (t.takeWhile (· ≠ 0))

/-! ### Parts of a text -/

/-- The parser goes from one mode to another over the text `t`, which ends the pairs. -/
def Reads (mode : Mode) (t : Text) (mode' : Mode) (pairs : List (Text × Text)) : Prop :=
  ∀ rest, parseFrom mode (t ++ rest) = (parseFrom mode' rest).map (pairs ++ ·)

section

variable {mode mode' mode'' : Mode} {t u : Text} {pairs more : List (Text × Text)}

theorem Reads.nil (mode : Mode) : Reads mode [] mode [] := by
  intro rest
  simp

theorem Reads.byte {c : UInt8} (hnext : next mode c = mode')
    (hcompleted : completed mode c = pairs) : Reads mode [c] mode' pairs := by
  intro rest
  rw [List.singleton_append, parseFrom, hnext, hcompleted]

theorem Reads.append (h : Reads mode t mode' pairs) (h' : Reads mode' u mode'' more) :
    Reads mode (t ++ u) mode'' (pairs ++ more) := by
  intro rest
  rw [List.append_assoc, h, h', Option.map_map]
  congr 1
  funext last
  simp

theorem Reads.parseFrom_eq (h : Reads mode t mode' pairs) :
    parseFrom mode t = (finish mode').map (pairs ++ ·) := by
  have hend := h []
  rwa [List.append_nil, parseFrom] at hend

/-- A mode that gathers characters gathers a text that is written one character after
another. -/
theorem reads_flatMap {mode : Text → Mode} {code : UInt8 → Text}
    (h : ∀ c ∈ t, ∀ acc, Reads (mode acc) (code c) (mode (acc ++ [c])) []) (acc : Text) :
    Reads (mode acc) (t.flatMap code) (mode (acc ++ t)) [] := by
  induction t generalizing acc with
  | nil => simpa using Reads.nil (mode acc)
  | cons c t ih =>
    have hrest := ih (fun d hd => h d (List.mem_cons_of_mem _ hd)) (acc ++ [c])
    rw [List.append_assoc, List.singleton_append] at hrest
    exact (h c List.mem_cons_self acc).append hrest

/-- A text whose characters stand for themselves. -/
theorem reads_plain {mode : Text → Mode}
    (h : ∀ c ∈ t, ∀ acc, Reads (mode acc) [c] (mode (acc ++ [c])) []) (acc : Text) :
    Reads (mode acc) t (mode (acc ++ t)) [] := by
  simpa using reads_flatMap h acc

end

/-! ### Pairs -/

/-- A name that is followed by `=`. -/
theorem reads_name {name : Text} (h : ∀ c ∈ name, c ≠ equals ∧ isSpace c = false) :
    Reads .between (name ++ [equals]) (.beforeValue name) [] := by
  cases name with
  | nil => exact Reads.byte rfl rfl
  | cons c name =>
    obtain ⟨hequals, hspace⟩ := h c List.mem_cons_self
    have hfirst : Reads .between [c] (.name [c]) [] :=
      Reads.byte (by simp [next, hspace, hequals]) rfl
    have hrest : Reads (.name [c]) name (.name ([c] ++ name)) [] := by
      refine reads_plain (fun d hd acc => Reads.byte ?_ rfl) [c]
      obtain ⟨hequals, hspace⟩ := h d (List.mem_cons_of_mem _ hd)
      simp [next, hspace, hequals]
    exact (hfirst.append hrest).append (Reads.byte (by simp [next]) rfl)

/-- A value without white space, apostrophes and backslashes. -/
theorem reads_unquoted {name value : Text} (hne : value ≠ [])
    (h : ∀ c ∈ value, isSpace c = false ∧ c ≠ apostrophe ∧ c ≠ backslash) :
    Reads (.beforeValue name) value (.unquoted name value) [] := by
  obtain ⟨c, value, rfl⟩ := List.exists_cons_of_ne_nil hne
  obtain ⟨hspace, hapostrophe, hbackslash⟩ := h c List.mem_cons_self
  have hfirst : Reads (.beforeValue name) [c] (.unquoted name [c]) [] :=
    Reads.byte (by simp [next, hspace, hapostrophe, hbackslash]) rfl
  have hrest : Reads (.unquoted name [c]) value (.unquoted name ([c] ++ value)) [] := by
    refine reads_plain (fun d hd acc => ?_) [c]
    obtain ⟨hspace, -, hbackslash⟩ := h d (List.mem_cons_of_mem _ hd)
    exact Reads.byte (by simp [next, hspace, hbackslash]) (by simp [completed, hspace])
  exact hfirst.append hrest

/-- Each apostrophe and each backslash behind a backslash. -/
def escaped (value : Text) : Text :=
  value.flatMap fun c => if c = backslash ∨ c = apostrophe then [backslash, c] else [c]

theorem reads_escaped (name value : Text) :
    Reads (.beforeValue name) (apostrophe :: escaped value ++ [apostrophe]) .between
      [(name, value)] := by
  have hopen : Reads (.beforeValue name) [apostrophe] (.quoted name []) [] := Reads.byte rfl rfl
  have hvalue : Reads (.quoted name []) (escaped value) (.quoted name ([] ++ value)) [] := by
    refine reads_flatMap (fun c _ acc => ?_) []
    split_ifs with h
    · have hfirst : Reads (.quoted name acc) [backslash] (.quotedEscape name acc) [] :=
        Reads.byte rfl rfl
      exact hfirst.append (Reads.byte rfl rfl)
    · rw [not_or] at h
      exact Reads.byte (by simp [next, h]) (by simp [completed, h])
  exact (hopen.append hvalue).append (Reads.byte rfl rfl)

/-! ### Values that are cut -/

/-- The name and what has been read of the value. -/
def open? : Mode → Option (Text × Text)
  | .unquoted name acc | .unquotedEscape name acc => some (name, acc)
  | .quoted name acc | .quotedEscape name acc => some (name, acc)
  | _ => none

/-- A byte that does not end a value makes it longer, if it does not escape the next one. -/
theorem open?_next {mode : Mode} {name acc : Text} (h : open? mode = some (name, acc)) (c : UInt8) :
    completed mode c = [(name, acc)] ∨
      completed mode c = [] ∧ ∃ more, open? (next mode c) = some (name, acc ++ more) := by
  cases mode with
  | unquoted n a =>
    obtain ⟨rfl, rfl⟩ := Prod.mk.inj (Option.some.inj h)
    simp only [completed, next]
    split_ifs with hspace hbackslash
    · exact .inl rfl
    · exact .inr ⟨rfl, [], by simp [open?]⟩
    · exact .inr ⟨rfl, [c], rfl⟩
  | unquotedEscape n a =>
    obtain ⟨rfl, rfl⟩ := Prod.mk.inj (Option.some.inj h)
    exact .inr ⟨rfl, [c], rfl⟩
  | quoted n a =>
    obtain ⟨rfl, rfl⟩ := Prod.mk.inj (Option.some.inj h)
    simp only [completed, next]
    split_ifs with hapostrophe hbackslash hbackslash
    · exact .inl rfl
    · exact .inl rfl
    · exact .inr ⟨rfl, [], by simp [open?]⟩
    · exact .inr ⟨rfl, [c], rfl⟩
  | quotedEscape n a =>
    obtain ⟨rfl, rfl⟩ := Prod.mk.inj (Option.some.inj h)
    exact .inr ⟨rfl, [c], rfl⟩
  | _ => cases h

theorem finish_open {mode : Mode} {name acc : Text} (h : open? mode = some (name, acc))
    {pairs : List (Text × Text)} (hfinish : finish mode = some pairs) : pairs = [(name, acc)] := by
  cases mode with
  | unquoted n a =>
    obtain ⟨rfl, rfl⟩ := Prod.mk.inj (Option.some.inj h)
    exact (Option.some.inj hfinish).symm
  | unquotedEscape n a =>
    obtain ⟨rfl, rfl⟩ := Prod.mk.inj (Option.some.inj h)
    exact (Option.some.inj hfinish).symm
  | quoted n a => cases hfinish
  | quotedEscape n a => cases hfinish
  | _ => cases h

/-- What has been read of a value is the beginning of it. -/
theorem parseFrom_open {mode : Mode} {name acc t : Text} {pairs : List (Text × Text)}
    (hopen : open? mode = some (name, acc)) (h : parseFrom mode t = some pairs) :
    ∃ value more, pairs = (name, acc ++ value) :: more := by
  induction t generalizing mode acc pairs with
  | nil => exact ⟨[], [], by simpa using finish_open hopen h⟩
  | cons c t ih =>
    obtain ⟨rest, hrest, rfl⟩ := Option.map_eq_some_iff.mp h
    rcases open?_next hopen c with hcompleted | ⟨hcompleted, more, hmore⟩
    · exact ⟨[], rest, by simp [hcompleted]⟩
    · obtain ⟨value, last, rfl⟩ := ih hmore hrest
      exact ⟨more ++ value, last, by simp [hcompleted]⟩

/-- White space in front of a value is not part of it, unless it is quoted or escaped. -/
theorem parseFrom_beforeValue {name t : Text} {pairs : List (Text × Text)}
    (ht : ∀ c ∈ (t.dropWhile isSpace).head?, c ≠ apostrophe ∧ c ≠ backslash)
    (h : parseFrom (.beforeValue name) t = some pairs) :
    ∃ value more, pairs = (name, value) :: more ∧ ∀ c ∈ value.head?, isSpace c = false := by
  induction t generalizing pairs with
  | nil => exact ⟨[], [], (Option.some.inj h).symm, by simp⟩
  | cons c t ih =>
    obtain ⟨rest, hrest, rfl⟩ := Option.map_eq_some_iff.mp h
    cases hspace : isSpace c with
    | true =>
      rw [List.dropWhile_cons_of_pos hspace] at ht
      rw [next, if_pos hspace] at hrest
      exact ih ht hrest
    | false =>
      rw [List.dropWhile_cons_of_neg (by simp [hspace])] at ht
      obtain ⟨hapostrophe, hbackslash⟩ := ht c rfl
      simp only [next, hspace, Bool.false_eq_true, if_false, if_neg hapostrophe,
        if_neg hbackslash] at hrest
      obtain ⟨value, more, rfl⟩ := parseFrom_open rfl hrest
      exact ⟨c :: value, more, rfl, by simp [hspace]⟩

/-- A value that is not quoted goes up to the first white space in it. -/
theorem reads_unquoted_cut {name value rest : Text} {c : UInt8} (hne : value ≠ [])
    (h : ∀ c ∈ value, isSpace c = false ∧ c ≠ apostrophe ∧ c ≠ backslash)
    (hc : isSpace c = true) :
    parseFrom (.beforeValue name) (value ++ c :: rest) =
      (parseFrom .between rest).map ((name, value) :: ·) := by
  have hend : Reads (.unquoted name value) [c] .between [(name, value)] :=
    Reads.byte (by simp [next, hc]) (by simp [completed, hc])
  have hread := (reads_unquoted hne h).append hend rest
  rwa [List.append_assoc, List.singleton_append] at hread

/-- White space in a value that is not quoted is lost, with what follows it. -/
theorem parseFrom_unquoted_ne {name value rest : Text} {pairs : List (Text × Text)}
    (hspace : ∃ c ∈ value, isSpace c = true)
    (hvalue : ∀ c ∈ value, c ≠ apostrophe ∧ c ≠ backslash)
    (hrest : ∀ c ∈ (rest.dropWhile isSpace).head?, c ≠ apostrophe ∧ c ≠ backslash)
    (h : parseFrom (.beforeValue name) (value ++ rest) = some pairs) :
    ∃ value' more, pairs = (name, value') :: more ∧ value' ≠ value := by
  obtain ⟨c, hfind⟩ : ∃ c, value.find? isSpace = some c :=
    Option.isSome_iff_exists.mp (List.find?_isSome.mpr hspace)
  obtain ⟨hc, before, after, rfl, hbefore⟩ := List.find?_eq_some_iff_append.mp hfind
  cases before with
  | nil =>
    -- the white space in front is skipped
    have hhead : ∀ d ∈ (((c :: after) ++ rest).dropWhile isSpace).head?,
        d ≠ apostrophe ∧ d ≠ backslash := by
      rw [List.dropWhile_append]
      cases hdrop : (c :: after).dropWhile isSpace with
      | nil => simpa using hrest
      | cons e kept =>
        have hmem : e ∈ c :: after :=
          (List.dropWhile_sublist isSpace).subset (hdrop ▸ List.mem_cons_self)
        simpa using hvalue e hmem
    obtain ⟨value', more, rfl, hvalue'⟩ := parseFrom_beforeValue hhead h
    refine ⟨value', more, rfl, ?_⟩
    rintro rfl
    rw [hvalue' c rfl] at hc
    cases hc
  | cons d before =>
    have hplain : ∀ e ∈ d :: before, isSpace e = false ∧ e ≠ apostrophe ∧ e ≠ backslash :=
      fun e he => ⟨by simpa using hbefore e he, hvalue e (List.mem_append_left _ he)⟩
    have happend : d :: before ++ c :: after ++ rest = d :: before ++ c :: (after ++ rest) := by
      simp
    rw [happend, reads_unquoted_cut (List.cons_ne_nil d before) hplain hc] at h
    obtain ⟨more, -, rfl⟩ := Option.map_eq_some_iff.mp h
    exact ⟨d :: before, more, rfl, by simp⟩

end Demiplane.Conninfo

import Demiplane.Text.Decimal

/-!
The lexical structure of PostgreSQL's SQL, with `standard_conforming_strings` on.
The lexer reads one byte at a time. What it has of the token it is in is its
`Mode`; a byte that cannot belong to that token ends it and begins the next one.

A text is lexed in parts wherever the first byte of the second part ends the token
that the first part leaves open (`Breaks`): that is all a program that writes SQL
has to see to.
-/

namespace Demiplane.Sql

open Text (ascii isDigit)

/-! ### Tokens -/

inductive StringKind where
  | plain
  | escape
  | bit
  | hex
  | national
  | unicode
  deriving DecidableEq, Repr

/-- `word` is a keyword or an identifier without quotes. `lineBreak` is white space
with a new line in it; `unterminated` is what the text ends in the middle of. -/
inductive Token where
  | word (text : Text)
  | quoted (unicode : Bool) (text : Text)
  | string (kind : StringKind) (text : Text)
  | dollarString (text : Text)
  | param (digits : Text)
  | number (text : Text)
  | operator (text : Text)
  | punctuation (c : UInt8)
  | lineBreak
  | unterminated
  deriving DecidableEq, Repr

/-- The token without the text between its quotes. -/
def Token.mask : Token → Token
  | .quoted unicode _ => .quoted unicode []
  | .string kind _ => .string kind []
  | token => token

namespace Lexer

/-! ### Bytes -/

abbrev apostrophe : UInt8 := 39
abbrev doubleQuote : UInt8 := 34
abbrev backslash : UInt8 := 92
abbrev dollarSign : UInt8 := 36
abbrev point : UInt8 := 46
abbrev ampersand : UInt8 := 38
abbrev minus : UInt8 := 45
abbrev slash : UInt8 := 47
abbrev star : UInt8 := 42

def isNewline (c : UInt8) : Bool := c == 10 || c == 13

def isSpace (c : UInt8) : Bool := c == 32 || c == 9 || c == 11 || c == 12 || isNewline c

def isLetter (c : UInt8) : Bool := (65 ≤ c && c ≤ 90) || (97 ≤ c && c ≤ 122)

/-- A byte above 127 is part of a letter of another alphabet. -/
def isIdentStart (c : UInt8) : Bool := isLetter c || c == 95 || 128 ≤ c

def isIdentCont (c : UInt8) : Bool := isIdentStart c || isDigit c || c == dollarSign

def isOperator (c : UInt8) : Bool := (ascii "~!@#^&|`?+-*/%<>=").contains c

def isSign (c : UInt8) : Bool := (ascii "+-").contains c

def isExponent (c : UInt8) : Bool := (ascii "eE").contains c

/-! ### Modes -/

inductive Mode where
  | start
  | word (acc : Text)
  | unicodePrefix (letter : UInt8)
  | quoted (unicode : Bool) (acc : Text)
  | quotedEnd (unicode : Bool) (acc : Text)
  | string (kind : StringKind) (acc : Text)
  | stringEscape (acc : Text)
  | stringEnd (kind : StringKind) (acc : Text)
  | point
  | dollar
  | param (digits : Text)
  | dollarTag (tag : Text)
  | dollarBody (tag acc : Text)
  | number (acc : Text)
  | operator (acc : Text)
  | lineComment
  | blockComment (depth : ℕ) (previous : UInt8)
  deriving DecidableEq, Repr

/-- A sign at the end of a longer operator is a token of its own, unless the operator
has one of the characters that no operator of the standard has. -/
def operatorTokens (acc : Text) : List Token :=
  if acc.any (ascii "~!@#^&|`?%").contains then [.operator acc]
  else
    let signs := (acc.reverse.takeWhile isSign).reverse
    let rest := (acc.reverse.dropWhile isSign).reverse
    (if rest = [] then [] else [.operator rest]) ++ signs.map fun c => .operator [c]

/-- The tokens that the text ends with if it ends here. -/
def pending : Mode → List Token
  | .start => []
  | .word acc => [.word acc]
  | .unicodePrefix letter => [.word [letter], .operator [ampersand]]
  | .quoted _ _ => [.unterminated]
  | .quotedEnd unicode acc => [.quoted unicode acc]
  | .string _ _ => [.unterminated]
  | .stringEscape _ => [.unterminated]
  | .stringEnd kind acc => [.string kind acc]
  | .point => [.punctuation point]
  | .dollar => [.punctuation dollarSign]
  | .param digits => [.param digits]
  | .dollarTag tag => [.punctuation dollarSign, .word tag]
  | .dollarBody _ _ => [.unterminated]
  | .number acc => [.number acc]
  | .operator acc => operatorTokens acc
  | .lineComment => []
  | .blockComment _ _ => [.unterminated]

/-- The first byte of a token. -/
def first (c : UInt8) : Mode × List Token :=
  if isNewline c then (.start, [.lineBreak])
  else if isSpace c then (.start, [])
  else if isIdentStart c then (.word [c], [])
  else if c = doubleQuote then (.quoted false [], [])
  else if c = apostrophe then (.string .plain [], [])
  else if isDigit c then (.number [c], [])
  else if c = point then (.point, [])
  else if c = dollarSign then (.dollar, [])
  else if isOperator c then (.operator [c], [])
  else (.start, [.punctuation c])

/-- The token ends before the byte. -/
def cut (m : Mode) (c : UInt8) : Mode × List Token := ((first c).1, pending m ++ (first c).2)

def stringPrefix (word : Text) : Option StringKind :=
  if word = ascii "e" ∨ word = ascii "E" then some .escape
  else if word = ascii "b" ∨ word = ascii "B" then some .bit
  else if word = ascii "x" ∨ word = ascii "X" then some .hex
  else if word = ascii "n" ∨ word = ascii "N" then some .national
  else none

def afterOperator (acc : Text) (c : UInt8) : Mode × List Token :=
  if c = minus ∧ acc.getLast? = some minus then (.lineComment, operatorTokens acc.dropLast)
  else if c = star ∧ acc.getLast? = some slash then (.blockComment 1 0, operatorTokens acc.dropLast)
  else if isOperator c then (.operator (acc ++ [c]), [])
  else cut (.operator acc) c

/-- The mode after one more byte, and the tokens that end with it. -/
def next : Mode → UInt8 → Mode × List Token
  | .start, c => first c
  | .word acc, c =>
      if isIdentCont c then (.word (acc ++ [c]), [])
      else if c = apostrophe then
        match stringPrefix acc with
        | some kind => (.string kind [], [])
        | none => cut (.word acc) c
      else if c = ampersand ∧ (acc = ascii "u" ∨ acc = ascii "U") then
        (.unicodePrefix (acc.headD 0), [])
      else cut (.word acc) c
  | .unicodePrefix letter, c =>
      if c = apostrophe then (.string .unicode [], [])
      else if c = doubleQuote then (.quoted true [], [])
      else
        let (m, tokens) := afterOperator [ampersand] c
        (m, .word [letter] :: tokens)
  | .quoted unicode acc, c =>
      if c = doubleQuote then (.quotedEnd unicode acc, []) else (.quoted unicode (acc ++ [c]), [])
  | .quotedEnd unicode acc, c =>
      -- two quotes are one quote of the identifier
      if c = doubleQuote then (.quoted unicode (acc ++ [c]), []) else cut (.quotedEnd unicode acc) c
  | .string kind acc, c =>
      if c = apostrophe then (.stringEnd kind acc, [])
      else if c = backslash ∧ kind = .escape then (.stringEscape acc, [])
      else (.string kind (acc ++ [c]), [])
  | .stringEscape acc, c => (.string .escape (acc ++ [backslash, c]), [])
  | .stringEnd kind acc, c =>
      if c = apostrophe then (.string kind (acc ++ [c]), []) else cut (.stringEnd kind acc) c
  | .point, c => if isDigit c then (.number [point, c], []) else cut .point c
  | .dollar, c =>
      if isDigit c then (.param [c], [])
      else if c = dollarSign then (.dollarBody [] [], [])
      else if isIdentStart c then (.dollarTag [c], [])
      else cut .dollar c
  | .param digits, c => if isDigit c then (.param (digits ++ [c]), []) else cut (.param digits) c
  | .dollarTag tag, c =>
      if c = dollarSign then (.dollarBody tag [], [])
      else if isIdentCont c then (.dollarTag (tag ++ [c]), [])
      else cut (.dollarTag tag) c
  | .dollarBody tag acc, c =>
      let close := dollarSign :: tag ++ [dollarSign]
      if close.isSuffixOf (acc ++ [c]) then
        (.start, [.dollarString ((acc ++ [c]).take (acc.length + 1 - close.length))])
      else (.dollarBody tag (acc ++ [c]), [])
  | .number acc, c =>
      if isDigit c then (.number (acc ++ [c]), [])
      else if c = point ∧ ¬ acc.any (fun d => d == point || isExponent d) then
        (.number (acc ++ [c]), [])
      else if isExponent c ∧ ¬ acc.any isExponent then (.number (acc ++ [c]), [])
      else if isSign c ∧ acc.getLast?.any isExponent then (.number (acc ++ [c]), [])
      else cut (.number acc) c
  | .operator acc, c => afterOperator acc c
  | .lineComment, c => if isNewline c then (.start, [.lineBreak]) else (.lineComment, [])
  | .blockComment depth previous, c =>
      -- comments nest, and the byte that ends or begins one does not begin or end another
      if previous = star ∧ c = slash then
        if depth ≤ 1 then (.start, []) else (.blockComment (depth - 1) 0, [])
      else if previous = slash ∧ c = star then (.blockComment (depth + 1) 0, [])
      else (.blockComment depth c, [])

structure State where
  mode : Mode
  out : List Token
  deriving DecidableEq, Repr

def step (s : State) (c : UInt8) : State :=
  ⟨(next s.mode c).1, s.out ++ (next s.mode c).2⟩

def run (s : State) (t : Text) : State := t.foldl step s

def State.flush (s : State) : List Token := s.out ++ pending s.mode

/-- The mode in which a text leaves the lexer. -/
def final (t : Text) : Mode := (run ⟨.start, []⟩ t).mode

/-- The tokens of a text, with its line breaks. -/
def scan (t : Text) : List Token := (run ⟨.start, []⟩ t).flush

/-- One token more behind those that are read: a string constant goes on after a line
break, and a line break is no token. -/
def join : List Token × Bool → Token → List Token × Bool
  | (read, _), .lineBreak => (read, true)
  | (read, true), .string .plain text =>
      match read.getLast? with
      | some (.string kind before) => (read.dropLast ++ [.string kind (before ++ text)], false)
      | _ => (read ++ [.string .plain text], false)
  | (read, _), token => (read ++ [token], false)

def lex (t : Text) : List Token := ((scan t).foldl join ([], false)).1

/-! ### Texts in parts -/

theorem run_append (s : State) (t u : Text) : run s (t ++ u) = run (run s t) u :=
  List.foldl_append

@[simp] theorem run_cons (s : State) (c : UInt8) (t : Text) : run s (c :: t) = run (step s c) t :=
  rfl

@[simp] theorem run_nil (s : State) : run s [] = s := rfl

/-- What is read before has no influence on what a text lexes to. -/
theorem run_out (m : Mode) (out : List Token) (t : Text) :
    run ⟨m, out⟩ t = ⟨(run ⟨m, []⟩ t).mode, out ++ (run ⟨m, []⟩ t).out⟩ := by
  induction t generalizing m out with
  | nil => simp
  | cons c t ih =>
    rw [run_cons, run_cons, step, step, ih, ih _ ([] ++ _)]
    simp

@[simp] theorem next_start (c : UInt8) : next .start c = first c := rfl

/-- The first byte of the text ends the token that the mode is in. -/
def Breaks (m : Mode) (t : Text) : Prop := ∀ c ∈ t.head?, next m c = cut m c

@[simp] theorem breaks_start (t : Text) : Breaks .start t := by
  intro c _
  simp [cut, pending]

theorem run_of_breaks {m : Mode} {c : UInt8} {t : Text} (h : Breaks m (c :: t))
    (out : List Token) : run ⟨m, out⟩ (c :: t) = run ⟨.start, out ++ pending m⟩ (c :: t) := by
  have hc : next m c = cut m c := h c rfl
  have hstep : step ⟨m, out⟩ c = step ⟨.start, out ++ pending m⟩ c := by
    simp [step, hc, cut]
  rw [run_cons, run_cons, hstep]

theorem flush_of_breaks {m : Mode} {t : Text} (h : Breaks m t) (out : List Token) :
    (run ⟨m, out⟩ t).flush = (run ⟨.start, out ++ pending m⟩ t).flush := by
  cases t with
  | nil => simp [State.flush, pending]
  | cons c t => rw [run_of_breaks h]

theorem scan_append {t u : Text} (h : Breaks (final t) u) : scan (t ++ u) = scan t ++ scan u := by
  unfold scan
  rw [run_append]
  have hstate : run ⟨.start, []⟩ t = ⟨final t, (run ⟨.start, []⟩ t).out⟩ := rfl
  rw [hstate, flush_of_breaks h, run_out]
  simp [State.flush]

/-- Modes that a separator brings to an end: no token of the text is open in them but
one that has all it needs. -/
def Mode.closed : Mode → Bool
  | .start | .word _ | .quotedEnd _ _ | .stringEnd _ _ | .param _ | .number _ | .operator _ => true
  | _ => false

def isSeparator (c : UInt8) : Bool := (ascii " ),").contains c

/-- A separator can be no part of a word, a number or an operator, and it is no quote. -/
theorem not_token_of_separator {c : UInt8} (hc : isSeparator c = true) :
    (isIdentCont c = false ∧ isDigit c = false ∧ isExponent c = false ∧ isSign c = false ∧
      isOperator c = false) ∧
    (c ≠ apostrophe ∧ c ≠ doubleQuote ∧ c ≠ point ∧ c ≠ ampersand ∧ c ≠ minus ∧ c ≠ star) := by
  have hall : ∀ d ∈ ascii " ),",
      (isIdentCont d = false ∧ isDigit d = false ∧ isExponent d = false ∧ isSign d = false ∧
        isOperator d = false) ∧
      (d ≠ apostrophe ∧ d ≠ doubleQuote ∧ d ≠ point ∧ d ≠ ampersand ∧ d ≠ minus ∧ d ≠ star) := by
    decide +kernel
  exact hall c (by simpa [isSeparator] using hc)

theorem next_separator {m : Mode} (hm : m.closed = true) {c : UInt8} (hc : isSeparator c = true) :
    next m c = cut m c := by
  obtain ⟨⟨hcont, hdigit, hexponent, hsign, hoperator⟩, hne⟩ := not_token_of_separator hc
  cases m with
  | start => simp [cut, pending]
  | word acc => simp [next, hcont, hne]
  | quotedEnd unicode acc => simp [next, hne]
  | stringEnd kind acc => simp [next, hne]
  | param digits => simp [next, hdigit]
  | number acc => simp [next, hdigit, hexponent, hsign, hne]
  | operator acc => simp [next, afterOperator, hoperator, hne]
  | _ => cases hm

/-! ### Line breaks -/

theorem foldl_join {tokens : List Token} (h : Token.lineBreak ∉ tokens) (read : List Token) :
    tokens.foldl join (read, false) = (read ++ tokens, false) := by
  induction tokens generalizing read with
  | nil => simp
  | cons token tokens ih =>
    have hjoin : join (read, false) token = (read ++ [token], false) := by
      cases token with
      | lineBreak => exact absurd List.mem_cons_self h
      | string kind text => cases kind <;> rfl
      | _ => rfl
    rw [List.foldl_cons, hjoin, ih fun hmem => h (List.mem_cons_of_mem _ hmem)]
    simp

theorem lex_eq_scan {t : Text} (h : Token.lineBreak ∉ scan t) : lex t = scan t := by
  simp [lex, foldl_join h]

/-! ### Quotes -/

/-- The text with every byte `q` of it written twice. -/
def doubled (q : UInt8) (t : Text) : Text := t.flatMap fun c => if c = q then [q, q] else [c]

@[simp] theorem doubled_nil (q : UInt8) : doubled q [] = [] := rfl

theorem doubled_cons (q c : UInt8) (t : Text) :
    doubled q (c :: t) = (if c = q then [q, q] else [c]) ++ doubled q t := rfl

theorem doubled_append (q : UInt8) (t u : Text) : doubled q (t ++ u) = doubled q t ++ doubled q u :=
  List.flatMap_append

theorem length_doubled (q : UInt8) (t : Text) : (doubled q t).length = t.length + t.count q := by
  induction t with
  | nil => rfl
  | cons c t ih =>
    rw [doubled_cons, List.length_append, ih, List.count_cons, List.length_cons]
    by_cases h : c = q
    · simp [h]
      omega
    · simp [h]
      omega

theorem doubled_eq_self_iff {q : UInt8} {t : Text} : doubled q t = t ↔ q ∉ t := by
  constructor
  · intro h
    have hlength := congrArg List.length h
    rw [length_doubled] at hlength
    exact List.count_eq_zero.mp (by omega)
  · intro h
    induction t with
    | nil => rfl
    | cons c t ih =>
      obtain ⟨hc, ht⟩ : q ≠ c ∧ q ∉ t := by simpa using h
      rw [doubled_cons, if_neg hc.symm, ih ht]
      rfl

theorem run_quoted_doubled (unicode : Bool) (acc t : Text) (out : List Token) :
    run ⟨.quoted unicode acc, out⟩ (doubled doubleQuote t) = ⟨.quoted unicode (acc ++ t), out⟩ := by
  induction t generalizing acc with
  | nil => simp
  | cons c t ih =>
    rw [doubled_cons, run_append]
    by_cases h : c = doubleQuote
    · simp [h, step, next, ih]
    · simp [h, step, next, ih]

theorem run_string_doubled (acc t : Text) (out : List Token) :
    run ⟨.string .plain acc, out⟩ (doubled apostrophe t) = ⟨.string .plain (acc ++ t), out⟩ := by
  induction t generalizing acc with
  | nil => simp
  | cons c t ih =>
    rw [doubled_cons, run_append]
    by_cases h : c = apostrophe
    · simp [h, step, next, ih]
    · simp [h, step, next, ih]

/-- A delimited identifier, the quotes of its name written twice. -/
theorem run_delimited (name : Text) :
    run ⟨.start, []⟩ (doubleQuote :: doubled doubleQuote name ++ [doubleQuote]) =
      ⟨.quotedEnd false name, []⟩ := by
  have hfirst : step ⟨.start, []⟩ doubleQuote = ⟨.quoted false [], []⟩ := by decide
  rw [List.cons_append, run_cons, hfirst, run_append, run_quoted_doubled]
  simp [step, next]

/-- A plain string constant, the apostrophes of its value written twice. -/
theorem run_literal (value : Text) :
    run ⟨.start, []⟩ (apostrophe :: doubled apostrophe value ++ [apostrophe]) =
      ⟨.stringEnd .plain value, []⟩ := by
  have hfirst : step ⟨.start, []⟩ apostrophe = ⟨.string .plain [], []⟩ := by decide
  rw [List.cons_append, run_cons, hfirst, run_append, run_string_doubled]
  simp [step, next]

/-! ### Digits -/

theorem run_number_digits (acc : Text) {t : Text} (h : ∀ c ∈ t, isDigit c = true)
    (out : List Token) : run ⟨.number acc, out⟩ t = ⟨.number (acc ++ t), out⟩ := by
  induction t generalizing acc with
  | nil => simp
  | cons c t ih =>
    have hstep : step ⟨.number acc, out⟩ c = ⟨.number (acc ++ [c]), out⟩ := by
      simp [step, next, h c List.mem_cons_self]
    rw [run_cons, hstep, ih _ fun d hd => h d (List.mem_cons_of_mem _ hd)]
    simp

theorem run_param_digits (acc : Text) {t : Text} (h : ∀ c ∈ t, isDigit c = true)
    (out : List Token) : run ⟨.param acc, out⟩ t = ⟨.param (acc ++ t), out⟩ := by
  induction t generalizing acc with
  | nil => simp
  | cons c t ih =>
    have hstep : step ⟨.param acc, out⟩ c = ⟨.param (acc ++ [c]), out⟩ := by
      simp [step, next, h c List.mem_cons_self]
    rw [run_cons, hstep, ih _ fun d hd => h d (List.mem_cons_of_mem _ hd)]
    simp

end Lexer

end Demiplane.Sql

import Demiplane.Text.Decimal

/-!
The regular expressions of `std::regex` in the ECMAScript grammar, over bytes in the "C" locale:
their trees, and how a pattern is read. A pattern is first cut into tokens; a reader then keeps a
stack of open brackets, with the terms that were read behind each of them.

A bracket or brace that closes nothing is an error, as in the grammar, where no such character
stands for itself.
-/

namespace Demiplane

open Text

/-- The values of `std::regex_constants::error_type` that a pattern can be refused with. -/
inductive RegexError where
  | collate
  | ctype
  | escape
  | backref
  | brack
  | paren
  | brace
  | badbrace
  | range
  | badrepeat
  deriving DecidableEq

inductive CharClass where
  | alnum
  | alpha
  | blank
  | cntrl
  | digit
  | graph
  | lower
  | print
  | punct
  | space
  | upper
  | word
  | xdigit
  deriving DecidableEq

def CharClass.contains : CharClass → UInt8 → Bool
  | .lower, c => 97 ≤ c && c ≤ 122
  | .upper, c => 65 ≤ c && c ≤ 90
  | .alpha, c => 97 ≤ c && c ≤ 122 || 65 ≤ c && c ≤ 90
  | .digit, c => isDigit c
  | .alnum, c => 97 ≤ c && c ≤ 122 || 65 ≤ c && c ≤ 90 || isDigit c
  | .word, c => 97 ≤ c && c ≤ 122 || 65 ≤ c && c ≤ 90 || isDigit c || c == 95
  | .xdigit, c => isDigit c || 97 ≤ c && c ≤ 102 || 65 ≤ c && c ≤ 70
  | .blank, c => c == 9 || c == 32
  | .space, c => 9 ≤ c && c ≤ 13 || c == 32
  | .cntrl, c => c < 32 || c == 127
  | .print, c => 32 ≤ c && c ≤ 126
  | .graph, c => 33 ≤ c && c ≤ 126
  | .punct, c =>
      33 ≤ c && c ≤ 126 && !(97 ≤ c && c ≤ 122 || 65 ≤ c && c ≤ 90 || isDigit c)

/-- The names of classes between `[:` and `:]`. -/
def CharClass.names : List (String × CharClass) :=
  [("alnum", .alnum), ("alpha", .alpha), ("blank", .blank), ("cntrl", .cntrl),
    ("digit", .digit), ("graph", .graph), ("lower", .lower), ("print", .print),
    ("punct", .punct), ("space", .space), ("upper", .upper), ("xdigit", .xdigit),
    ("d", .digit), ("s", .space), ("w", .word)]

/-- A member of a bracket expression. -/
inductive ClassItem where
  | single (c : UInt8)
  | range (lo hi : UInt8)
  | named (cls : CharClass) (negated : Bool)
  deriving DecidableEq

def ClassItem.contains : ClassItem → UInt8 → Bool
  | .single d, c => c == d
  | .range lo hi, c => lo ≤ c && c ≤ hi
  | .named cls negated, c => cls.contains c != negated

inductive Regex where
  | empty
  | char (c : UInt8)
  | any
  | set (negated : Bool) (items : List ClassItem)
  | seq (r s : Regex)
  | alt (r s : Regex)
  | group (index : ℕ) (r : Regex)
  | quantified (r : Regex) (min : ℕ) (max : Option ℕ) (greedy : Bool)
  | lookahead (negated : Bool) (r : Regex)
  | backref (index : ℕ)
  | lineStart
  | lineEnd
  | boundary (negated : Bool)
  deriving DecidableEq

namespace Regex

/-- The terms of an alternative, one behind the other. -/
def sequence (terms : List Regex) : Regex := terms.foldr .seq .empty

def alternation (first : Regex) : List Regex → Regex
  | [] => first
  | r :: rs => .alt first (alternation r rs)

/-- The greatest number of a group that is referred to. -/
def maxBackref : Regex → ℕ
  | .backref i => i
  | .seq r s | .alt r s => Nat.max r.maxBackref s.maxBackref
  | .group _ r | .quantified r _ _ _ | .lookahead _ r => r.maxBackref
  | _ => 0

/-! ### Tokens -/

/-- What opens a bracket. -/
inductive Opening where
  | capture
  | plain
  | lookahead (negated : Bool)
  deriving DecidableEq

inductive Token where
  /-- An atom, which a quantifier may follow. -/
  | atom (r : Regex)
  | assertion (r : Regex)
  | quantifier (min : ℕ) (max : Option ℕ)
  /-- A quantifier, or the mark of a lazy one. -/
  | question
  | bar
  | opening (o : Opening)
  | close
  deriving DecidableEq

/-- The characters that do not stand for themselves. -/
def syntaxCharacters : Text := ascii "^$\\.*+?()[]\x7b\x7d|"

def hexDigit (c : UInt8) : Option ℕ :=
  if isDigit c then some (c.toNat - 48)
  else if 97 ≤ c ∧ c ≤ 102 then some (c.toNat - 87)
  else if 65 ≤ c ∧ c ≤ 70 then some (c.toNat - 55)
  else none

/-- The number of `n` hexadecimal digits. -/
def hexNumber : ℕ → ℕ → Text → Except RegexError (ℕ × Text)
  | 0, value, t => .ok (value, t)
  | _ + 1, _, [] => .error .escape
  | n + 1, value, c :: t =>
      match hexDigit c with
      | some d => hexNumber n (16 * value + d) t
      | none => .error .escape

/-- A byte that is written with a `\`, from the character `c` behind it on. -/
def characterEscape (c : UInt8) (t : Text) : Except RegexError (UInt8 × Text) :=
  if c = 'f'.toUInt8 then .ok (12, t)
  else if c = 'n'.toUInt8 then .ok (10, t)
  else if c = 'r'.toUInt8 then .ok (13, t)
  else if c = 't'.toUInt8 then .ok (9, t)
  else if c = 'v'.toUInt8 then .ok (11, t)
  else if c = '0'.toUInt8 then .ok (0, t)
  else if c = 'c'.toUInt8 then
    match t with
    | letter :: t =>
        if CharClass.alpha.contains letter then .ok (letter % 32, t) else .error .escape
    | [] => .error .escape
  else if c = 'x'.toUInt8 ∨ c = 'u'.toUInt8 then
    match hexNumber (if c = 'x'.toUInt8 then 2 else 4) 0 t with
    | .ok (value, t) => if value < 256 then .ok (UInt8.ofNat value, t) else .error .escape
    | .error e => .error e
  else .ok (c, t)

/-- The classes `\d`, `\s` and `\w` and their complements. -/
def classEscape (c : UInt8) : Option ClassItem :=
  if c = 'd'.toUInt8 then some (.named .digit false)
  else if c = 'D'.toUInt8 then some (.named .digit true)
  else if c = 's'.toUInt8 then some (.named .space false)
  else if c = 'S'.toUInt8 then some (.named .space true)
  else if c = 'w'.toUInt8 then some (.named .word false)
  else if c = 'W'.toUInt8 then some (.named .word true)
  else none

/-- What a `\` outside of brackets begins. -/
def atomEscape : Text → Except RegexError (Token × Text)
  | [] => .error .escape
  | c :: t =>
      if c = 'b'.toUInt8 then .ok (.assertion (.boundary false), t)
      else if c = 'B'.toUInt8 then .ok (.assertion (.boundary true), t)
      else if isDigit c ∧ c ≠ '0'.toUInt8 then
        .ok (.atom (.backref (number ((c :: t).takeWhile isDigit))), (c :: t).dropWhile isDigit)
      else
        match classEscape c with
        | some item => .ok (.atom (.set false [item]), t)
        | none =>
            match characterEscape c t with
            | .ok (d, t) => .ok (.atom (.char d), t)
            | .error e => .error e

/-- The text up to a mark and `]`, and what is behind them. -/
def upToMark (mark : UInt8) : Text → Option (Text × Text)
  | c :: d :: t =>
      if c = mark ∧ d = ']'.toUInt8 then some ([], t)
      else (upToMark mark (d :: t)).map fun (name, rest) => (c :: name, rest)
  | _ => none

/-- `[:name:]`, `[.name.]` and `[=name=]`, from the mark on. -/
def namedItem (mark : UInt8) (t : Text) : Except RegexError (ClassItem × Text) :=
  match upToMark mark t with
  | none => .error .brack
  | some (name, t) =>
      if mark = ':'.toUInt8 then
        match CharClass.names.find? fun entry => ascii entry.1 = name with
        | some (_, cls) => .ok (.named cls false, t)
        | none => .error .ctype
      else
        match name with
        | [c] => .ok (.single c, t)
        | _ => .error .collate

/-- One end of a range, or a member on its own. -/
def classAtom : Text → Except RegexError (ClassItem × Text)
  | [] => .error .brack
  | c :: t =>
      if c = '\\'.toUInt8 then
        match t with
        | [] => .error .escape
        | d :: t =>
            if d = 'b'.toUInt8 then .ok (.single 8, t)
            else
              match classEscape d with
              | some item => .ok (item, t)
              | none =>
                  match characterEscape d t with
                  | .ok (e, t) => .ok (.single e, t)
                  | .error e => .error e
      else if c = '['.toUInt8 then
        match t with
        | mark :: t' =>
            if mark = ':'.toUInt8 ∨ mark = '.'.toUInt8 ∨ mark = '='.toUInt8 then namedItem mark t'
            else .ok (.single c, t)
        | [] => .ok (.single c, t)
      else .ok (.single c, t)

def classRange : ClassItem → ClassItem → Except RegexError ClassItem
  | .single lo, .single hi => if lo ≤ hi then .ok (.range lo hi) else .error .range
  | _, _ => .error .range

/-- A member, or a range of them. -/
def classMember (t : Text) : Except RegexError (ClassItem × Text) := do
  let (item, t) ← classAtom t
  match t with
  | dash :: d :: t' =>
      -- a `-` before the closing bracket stands for itself
      if dash = '-'.toUInt8 ∧ d ≠ ']'.toUInt8 then
        let (last, t) ← classAtom (d :: t')
        .ok (← classRange item last, t)
      else .ok (item, t)
  | _ => .ok (item, t)

/-- The members of a bracket expression up to its `]`; a text of at most `fuel` bytes. -/
def classItems : ℕ → Text → Except RegexError (List ClassItem × Text)
  | 0, _ => .error .brack
  | fuel + 1, t =>
      if t.head? = some ']'.toUInt8 then .ok ([], t.tail)
      else do
        let (item, t) ← classMember t
        let (items, t) ← classItems fuel t
        .ok (item :: items, t)

def bracketExpression (t : Text) : Except RegexError (Token × Text) :=
  let negated := t.head? == some '^'.toUInt8
  match classItems t.length (if negated then t.tail else t) with
  | .ok (items, t) => .ok (.atom (.set negated items), t)
  | .error e => .error e

/-- A bracket that opens; `(?` is followed by what it is for. -/
def openingToken : Text → Except RegexError (Token × Text)
  | c :: t =>
      if c = '?'.toUInt8 then
        if t.head? = some ':'.toUInt8 then .ok (.opening .plain, t.tail)
        else if t.head? = some '='.toUInt8 then .ok (.opening (.lookahead false), t.tail)
        else if t.head? = some '!'.toUInt8 then .ok (.opening (.lookahead true), t.tail)
        else .error .paren
      else .ok (.opening .capture, c :: t)
  | [] => .ok (.opening .capture, [])

/-- A quantifier in braces, from the opening one on; 125 is the closing one. -/
def interval (t : Text) : Except RegexError (Token × Text) :=
  let lo := t.takeWhile isDigit
  if lo = [] then .error .badbrace
  else
    match t.dropWhile isDigit with
    | 125 :: t => .ok (.quantifier (number lo) (some (number lo)), t)
    | 44 :: t =>
        let hi := t.takeWhile isDigit
        match t.dropWhile isDigit with
        | 125 :: t =>
            if hi = [] then .ok (.quantifier (number lo) none, t)
            else if number hi < number lo then .error .badbrace
            else .ok (.quantifier (number lo) (some (number hi)), t)
        | _ => .error .brace
    | _ => .error .brace

/-- The token that begins with `c`. -/
def nextToken (c : UInt8) (t : Text) : Except RegexError (Token × Text) :=
  if c ∉ syntaxCharacters then .ok (.atom (.char c), t)
  else if c = '\\'.toUInt8 then atomEscape t
  else if c = '['.toUInt8 then bracketExpression t
  else if c = '('.toUInt8 then openingToken t
  else if c = '\x7b'.toUInt8 then interval t
  else if c = '^'.toUInt8 then .ok (.assertion .lineStart, t)
  else if c = '$'.toUInt8 then .ok (.assertion .lineEnd, t)
  else if c = '.'.toUInt8 then .ok (.atom .any, t)
  else if c = '*'.toUInt8 then .ok (.quantifier 0 none, t)
  else if c = '+'.toUInt8 then .ok (.quantifier 1 none, t)
  else if c = '?'.toUInt8 then .ok (.question, t)
  else if c = ')'.toUInt8 then .ok (.close, t)
  else if c = '|'.toUInt8 then .ok (.bar, t)
  -- a closing bracket or brace that closes nothing
  else if c = ']'.toUInt8 then .error .brack
  else .error .brace

/-- The tokens of a text of at most `fuel` bytes. -/
def tokens : ℕ → Text → Except RegexError (List Token)
  | _, [] => .ok []
  | 0, _ :: _ => .error .brack
  | fuel + 1, c :: t => do
      let (token, t) ← nextToken c t
      let rest ← tokens fuel t
      .ok (token :: rest)

/-! ### The reader -/

/-- The last term that was read, as far as a quantifier can still change it. -/
inductive Pending where
  | none
  | atom (r : Regex)
  | quantified (r : Regex) (min : ℕ) (max : Option ℕ)
  deriving DecidableEq

/-- What was read behind an open bracket: its alternatives, the terms of the last one, and the
term that a quantifier would belong to. -/
structure Frame where
  alternatives : List Regex
  terms : List Regex
  pending : Pending
  deriving DecidableEq

namespace Frame

def new : Frame := ⟨[], [], .none⟩

def add (f : Frame) (r : Regex) : Frame := { f with terms := f.terms ++ [r], pending := .none }

/-- No quantifier follows. -/
def settle (f : Frame) : Frame :=
  match f.pending with
  | .none => f
  | .atom r => f.add r
  | .quantified r min max => f.add (.quantified r min max true)

def addAtom (f : Frame) (r : Regex) : Frame := { f.settle with pending := .atom r }

def addAssertion (f : Frame) (r : Regex) : Frame := f.settle.add r

@[simp] theorem settle_add (f : Frame) (r : Regex) : (f.add r).settle = f.add r := rfl

@[simp] theorem settle_addAtom (f : Frame) (r : Regex) :
    (f.addAtom r).settle = f.settle.add r := rfl

@[simp] theorem settle_addAssertion (f : Frame) (r : Regex) :
    (f.addAssertion r).settle = f.settle.add r := rfl

@[simp] theorem settle_alternatives (f : Frame) : f.settle.alternatives = f.alternatives := by
  unfold settle
  split <;> rfl

def addBar (f : Frame) : Frame :=
  { f with
    alternatives := f.alternatives ++ [sequence f.settle.terms]
    terms := []
    pending := .none }

def quantify (f : Frame) (min : ℕ) (max : Option ℕ) : Except RegexError Frame :=
  match f.pending with
  | .atom r => .ok { f with pending := .quantified r min max }
  | _ => .error .badrepeat

/-- `?` makes a quantifier lazy, or is one itself. -/
def addQuestion (f : Frame) : Except RegexError Frame :=
  match f.pending with
  | .quantified r min max => .ok (f.add (.quantified r min max false))
  | _ => f.quantify 0 (some 1)

def regex (f : Frame) : Regex :=
  match f.alternatives with
  | [] => sequence f.settle.terms
  | r :: rs => alternation r (rs ++ [sequence f.settle.terms])

end Frame

/-- What a bracket was opened for; a group that captures has a number. -/
inductive Bracket where
  | capture (index : ℕ)
  | plain
  | lookahead (negated : Bool)
  deriving DecidableEq

/-- The innermost open bracket, the ones around it, and the number of groups so far. -/
structure Reader where
  frame : Frame
  outer : List (Bracket × Frame)
  marks : ℕ
  deriving DecidableEq

namespace Reader

def new : Reader := ⟨Frame.new, [], 0⟩

/-- What a bracket adds to the terms around it. -/
def closeBracket (f : Frame) (body : Regex) : Bracket → Frame
  | .capture i => f.addAtom (.group i body)
  | .plain => f.addAtom body
  | .lookahead negated => f.addAssertion (.lookahead negated body)

def read (s : Reader) : Token → Except RegexError Reader
  | .atom r => .ok { s with frame := s.frame.addAtom r }
  | .assertion r => .ok { s with frame := s.frame.addAssertion r }
  | .quantifier min max => do .ok { s with frame := ← s.frame.quantify min max }
  | .question => do .ok { s with frame := ← s.frame.addQuestion }
  | .bar => .ok { s with frame := s.frame.addBar }
  | .opening .capture =>
      .ok ⟨Frame.new, (.capture (s.marks + 1), s.frame) :: s.outer, s.marks + 1⟩
  | .opening .plain => .ok ⟨Frame.new, (.plain, s.frame) :: s.outer, s.marks⟩
  | .opening (.lookahead negated) =>
      .ok ⟨Frame.new, (.lookahead negated, s.frame) :: s.outer, s.marks⟩
  | .close =>
      match s.outer with
      | [] => .error .paren
      | (bracket, f) :: outer => .ok ⟨closeBracket f s.frame.regex bracket, outer, s.marks⟩

end Reader

/-- A `std::regex`: the tree of its pattern and `mark_count()`. -/
structure Compiled where
  regex : Regex
  markCount : ℕ
  deriving DecidableEq

def Reader.finish (s : Reader) : Except RegexError Compiled :=
  match s.outer with
  | _ :: _ => .error .paren
  | [] =>
      if s.frame.regex.maxBackref ≤ s.marks then .ok ⟨s.frame.regex, s.marks⟩
      else .error .backref

/-- The constructor of `std::regex`, which throws what it refuses a pattern with. -/
def compile (pattern : Text) : Except RegexError Compiled := do
  let ts ← tokens pattern.length pattern
  let s ← ts.foldlM Reader.read Reader.new
  s.finish

end Regex

end Demiplane

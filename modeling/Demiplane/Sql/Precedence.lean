import Mathlib.Tactic.Common
import Demiplane.Sql.Nesting

/-!
Conditions and the precedence of their operators in PostgreSQL, from the loosest:
OR, AND, NOT, IS, the comparisons, and BETWEEN, IN and LIKE. OR and AND group to the
left, the comparisons, BETWEEN and LIKE not at all, and behind BETWEEN stands an
expression with no operators but comparisons.

The parser keeps the parentheses in its terms (`group`); a term without them (`strip`) is
what the text means. What it reads has the text and fits the precedences (`soundAt`).
-/

namespace Demiplane.Sql

open Text (ascii)

/-! ### Symbols -/

inductive Keyword where
  | and
  | or
  | not
  | is
  | null
  | like
  | isIn
  | between
  | exist
  deriving DecidableEq, Repr

/-- Tokens as the grammar knows them. -/
inductive Symbol where
  | key (k : Keyword)
  | compare (text : Text)
  | openParen
  | closeParen
  | comma
  | dot
  | minus
  | name (t : Token)
  | constant (t : Token)
  | other (t : Token)
  deriving DecidableEq, Repr

def keywords : List (Text × Keyword) :=
  [(ascii "AND", .and), (ascii "OR", .or), (ascii "NOT", .not), (ascii "IS", .is),
    (ascii "NULL", .null), (ascii "LIKE", .like), (ascii "IN", .isIn),
    (ascii "BETWEEN", .between), (ascii "EXISTS", .exist)]

def comparisons : List Text :=
  [ascii "=", ascii "!=", ascii "<>", ascii "<", ascii "<=", ascii ">", ascii ">="]

def symbol : Token → Symbol
  | .word text =>
      match keywords.lookup text with
      | some k => .key k
      | none => .name (.word text)
  | .quoted unicode text => .name (.quoted unicode text)
  | .operator text =>
      if text = [Lexer.minus] then .minus
      else if comparisons.contains text then .compare text
      else .other (.operator text)
  | .punctuation c =>
      if c = 40 then .openParen
      else if c = 41 then .closeParen
      else if c = 44 then .comma
      else if c = Lexer.point then .dot
      else .other (.punctuation c)
  | .lineBreak => .other .lineBreak
  | .unterminated => .other .unterminated
  | token => .constant token

/-! ### Terms -/

/-- The operators between two operands. -/
inductive Connective where
  | compare (text : Text)
  | like (negated : Bool)
  | and
  | or
  deriving DecidableEq, Repr

def Connective.level : Connective → ℕ
  | .or => 1
  | .and => 2
  | .compare _ => 5
  | .like _ => 6

def Connective.symbols : Connective → List Symbol
  | .or => [.key .or]
  | .and => [.key .and]
  | .compare text => [.compare text]
  | .like false => [.key .like]
  | .like true => [.key .not, .key .like]

/-- One expression, or the values of a list. -/
inductive Extent where
  | one
  | list
  deriving DecidableEq, Repr

inductive Term : Extent → Type where
  | atom (symbols : List Symbol) : Term .one
  | group (inner : Term .one) : Term .one
  | binary (op : Connective) (left right : Term .one) : Term .one
  | not (operand : Term .one) : Term .one
  | isNull (negated : Bool) (operand : Term .one) : Term .one
  | between (operand lower upper : Term .one) : Term .one
  | inList (operand : Term .one) (values : Term .list) : Term .one
  | existsQuery (query : List Symbol) : Term .one
  | last (value : Term .one) : Term .list
  | cons (value : Term .one) (values : Term .list) : Term .list
  deriving DecidableEq, Repr

def isNullSymbols (negated : Bool) : List Symbol :=
  if negated then [.key .is, .key .not, .key .null] else [.key .is, .key .null]

namespace Term

@[simp] def symbols : {k : Extent} → Term k → List Symbol
  | _, atom symbols => symbols
  | _, group inner => .openParen :: (inner.symbols ++ [.closeParen])
  | _, binary op left right => left.symbols ++ (op.symbols ++ right.symbols)
  | _, not operand => .key .not :: operand.symbols
  | _, isNull negated operand => operand.symbols ++ isNullSymbols negated
  | _, between operand lower upper =>
      operand.symbols ++ .key .between :: (lower.symbols ++ .key .and :: upper.symbols)
  | _, inList operand values =>
      operand.symbols ++ .key .isIn :: .openParen :: (values.symbols ++ [.closeParen])
  | _, existsQuery query => .key .exist :: .openParen :: (query ++ [.closeParen])
  | _, last value => value.symbols
  | _, cons value values => value.symbols ++ .comma :: values.symbols

/-- The term without its parentheses. -/
@[simp] def strip : {k : Extent} → Term k → Term k
  | _, atom symbols => atom symbols
  | _, group inner => inner.strip
  | _, binary op left right => binary op left.strip right.strip
  | _, not operand => not operand.strip
  | _, isNull negated operand => isNull negated operand.strip
  | _, between operand lower upper => between operand.strip lower.strip upper.strip
  | _, inList operand values => inList operand.strip values.strip
  | _, existsQuery query => existsQuery query
  | _, last value => last value.strip
  | _, cons value values => cons value.strip values.strip

/-- The loosest operator that is open on the left; 7 where there is none. -/
@[simp] def leftLevel : {k : Extent} → Term k → ℕ
  | _, binary op left _ => min op.level left.leftLevel
  | _, isNull _ operand => min 4 operand.leftLevel
  | _, between operand _ _ => min 6 operand.leftLevel
  | _, inList operand _ => min 6 operand.leftLevel
  | _, _ => 7

/-- The loosest operator that is open on the right. -/
@[simp] def rightLevel : {k : Extent} → Term k → ℕ
  | _, binary op _ right => min op.level right.rightLevel
  | _, not operand => min 3 operand.rightLevel
  | _, between _ _ upper => min 6 upper.rightLevel
  | _, _ => 7

end Term

/-! ### Reading operands -/

@[simp] def readPath : List Symbol → Option (List Symbol × List Symbol)
  | .name t :: .dot :: rest => (readPath rest).map fun p => (.name t :: .dot :: p.1, p.2)
  | .name t :: rest => some ([.name t], rest)
  | _ => none

@[simp] def readUnsigned : List Symbol → Option (List Symbol × List Symbol)
  | .constant t :: rest => some ([.constant t], rest)
  | .key .null :: rest => some ([.key .null], rest)
  | ts => readPath ts

/-- A column, a constant or a parameter, maybe with a minus. -/
@[simp] def readAtom : List Symbol → Option (List Symbol × List Symbol)
  | .minus :: rest => (readUnsigned rest).map fun p => (.minus :: p.1, p.2)
  | ts => readUnsigned ts

/-- The symbols up to the parenthesis that closes the one before them, and those behind it. -/
@[simp] def takeGroup : ℕ → List Symbol → Option (List Symbol × List Symbol)
  | _, [] => none
  | d, .openParen :: ts => (takeGroup (d + 1) ts).map fun p => (.openParen :: p.1, p.2)
  | 0, .closeParen :: ts => some ([], ts)
  | d + 1, .closeParen :: ts => (takeGroup d ts).map fun p => (.closeParen :: p.1, p.2)
  | d, t :: ts => (takeGroup d ts).map fun p => (t :: p.1, p.2)

/-- The symbols are all of an operand. -/
def IsAtom (ts : List Symbol) : Prop := readAtom ts = some (ts, [])

instance (ts : List Symbol) : Decidable (IsAtom ts) :=
  inferInstanceAs (Decidable (readAtom ts = some (ts, [])))

/-- The symbols close the parentheses that they open and no others. -/
def IsBalanced (ts : List Symbol) : Prop := takeGroup 0 (ts ++ [.closeParen]) = some (ts, [])

/-! ### Reading operators -/

/-- Whether all operators are read, or only those that may stand behind BETWEEN. -/
inductive Zone where
  | full
  | bound
  deriving DecidableEq, Repr

inductive Operator where
  | binary (op : Connective)
  | isNull (negated : Bool)
  | isIn
  | between
  deriving DecidableEq, Repr

def Operator.level : Operator → ℕ
  | .binary op => op.level
  | .isNull _ => 4
  | .isIn => 6
  | .between => 6

def readOperator : Zone → List Symbol → Option (Operator × List Symbol)
  | _, .compare text :: rest => some (.binary (.compare text), rest)
  | .full, .key .or :: rest => some (.binary .or, rest)
  | .full, .key .and :: rest => some (.binary .and, rest)
  | .full, .key .like :: rest => some (.binary (.like false), rest)
  | .full, .key .not :: .key .like :: rest => some (.binary (.like true), rest)
  | .full, .key .is :: .key .null :: rest => some (.isNull false, rest)
  | .full, .key .is :: .key .not :: .key .null :: rest => some (.isNull true, rest)
  | .full, .key .isIn :: .openParen :: rest => some (.isIn, rest)
  | .full, .key .between :: rest => some (.between, rest)
  | _, _ => none

/-- An operator of level `q` leaves what is open at the level `level` to the left of it. -/
def Yields (q level : ℕ) : Prop := q < level ∨ q = level ∧ q ≤ 2

instance (q level : ℕ) : Decidable (Yields q level) := inferInstanceAs (Decidable (_ ∨ _))

/-! ### The parser -/

@[simp] def expect (s : Symbol) : List Symbol → Option (List Symbol)
  | [] => none
  | t :: ts => if t = s then some ts else none

mutual

/-- An expression of operators above a level. -/
def parseExpr : ℕ → Zone → ℕ → List Symbol → Option (Term .one × List Symbol)
  | 0, _, _, _ => none
  | n + 1, zone, above, ts =>
      (parsePrimary n zone ts).bind fun p => parseRest n zone above p.1 p.2

def parsePrimary : ℕ → Zone → List Symbol → Option (Term .one × List Symbol)
  | 0, _, _ => none
  | n + 1, zone, ts =>
      match zone, ts with
      | _, .openParen :: ts =>
          (parseExpr n .full 0 ts).bind fun p =>
            (expect .closeParen p.2).map fun rest => (.group p.1, rest)
      | .full, .key .not :: ts => (parseExpr n .full 3 ts).map fun p => (.not p.1, p.2)
      | _, .key .exist :: .openParen :: ts =>
          (takeGroup 0 ts).map fun p => (.existsQuery p.1, p.2)
      | _, ts => (readAtom ts).map fun p => (.atom p.1, p.2)

/-- The operators behind `left`. An operator that is as tight as the one in front of `left`
is refused, unless the two group to the left. -/
def parseRest : ℕ → Zone → ℕ → Term .one → List Symbol → Option (Term .one × List Symbol)
  | 0, _, _, _, _ => none
  | n + 1, zone, above, left, ts =>
      match readOperator zone ts with
      | none => some (left, ts)
      | some (op, rest) =>
          if Yields op.level above then some (left, ts)
          else if op.level = above then none
          else
            match op with
            | .binary op =>
                (parseExpr n zone op.level rest).bind fun p =>
                  parseRest n zone above (.binary op left p.1) p.2
            | .isNull negated => parseRest n zone above (.isNull negated left) rest
            | .isIn =>
                (parseValues n rest).bind fun p => parseRest n zone above (.inList left p.1) p.2
            | .between =>
                (parseExpr n .bound 0 rest).bind fun lower =>
                  (expect (.key .and) lower.2).bind fun rest =>
                    (parseExpr n .full 6 rest).bind fun upper =>
                      parseRest n zone above (.between left lower.1 upper.1) upper.2

def parseValues : ℕ → List Symbol → Option (Term .list × List Symbol)
  | 0, _ => none
  | n + 1, ts =>
      (parseExpr n .full 0 ts).bind fun p =>
        match p.2 with
        | .comma :: rest => (parseValues n rest).map fun q => (.cons p.1 q.1, q.2)
        | .closeParen :: rest => some (.last p.1, rest)
        | _ => none

end

def parse (ts : List Symbol) : Option (Term .one) :=
  (parseExpr (3 * ts.length + 1) .full 0 ts).bind fun p => if p.2 = [] then some p.1 else none

/-! ### Operands -/

theorem readPath_eq {ts a rest : List Symbol} (h : readPath ts = some (a, rest)) :
    ts = a ++ rest ∧ readPath a = some (a, []) := by
  induction ts using readPath.induct generalizing a rest with
  | case1 t ts ih =>
    rw [readPath] at h
    obtain ⟨⟨a', rest'⟩, hp, heq⟩ := Option.map_eq_some_iff.mp h
    obtain ⟨rfl, hself⟩ := ih hp
    cases heq
    exact ⟨rfl, by rw [readPath, hself]; rfl⟩
  | case2 t ts hdot =>
    rw [readPath] at h
    · cases h
      exact ⟨rfl, rfl⟩
    · exact hdot
  | case3 ts hpath hname =>
    rw [readPath] at h
    · cases h
    · exact hpath
    · exact hname

theorem readPath_append {a rest : List Symbol} (h : readPath a = some (a, []))
    (hrest : rest.head? ≠ some .dot) : readPath (a ++ rest) = some (a, rest) := by
  induction a using readPath.induct with
  | case1 t a ih =>
    rw [readPath] at h
    obtain ⟨⟨a', rest'⟩, hp, heq⟩ := Option.map_eq_some_iff.mp h
    obtain ⟨rfl, rfl⟩ : a' = a ∧ rest' = [] := by simpa using heq
    simp [readPath, ih hp]
  | case2 t a hdot =>
    rw [readPath] at h
    · obtain rfl : a = [] := by simpa using h
      rcases rest with _ | ⟨s, rest⟩
      · rfl
      · rw [List.singleton_append, readPath]
        rintro ts heq
        cases heq
        exact hrest rfl
    · exact hdot
  | case3 a hpath hname =>
    rw [readPath] at h
    · cases h
    · exact hpath
    · exact hname

theorem readPath_head {ts : List Symbol} {p : List Symbol × List Symbol}
    (h : readPath ts = some p) : ∃ t more, ts = .name t :: more := by
  unfold readPath at h
  split at h
  · exact ⟨_, _, rfl⟩
  · exact ⟨_, _, rfl⟩
  · cases h

theorem readUnsigned_eq {ts a rest : List Symbol} (h : readUnsigned ts = some (a, rest)) :
    ts = a ++ rest ∧ readUnsigned a = some (a, []) := by
  unfold readUnsigned at h
  split at h
  · cases h
    exact ⟨rfl, rfl⟩
  · cases h
    exact ⟨rfl, rfl⟩
  · obtain ⟨heq, hself⟩ := readPath_eq h
    obtain ⟨t, more, rfl⟩ := readPath_head hself
    exact ⟨heq, hself⟩

theorem readUnsigned_append {a rest : List Symbol} (h : readUnsigned a = some (a, []))
    (hrest : rest.head? ≠ some .dot) : readUnsigned (a ++ rest) = some (a, rest) := by
  unfold readUnsigned at h
  split at h
  · cases h
    rfl
  · cases h
    rfl
  · obtain ⟨t, more, rfl⟩ := readPath_head h
    exact readPath_append h hrest

/-- What an operand begins with. -/
def startsAtom : Symbol → Bool
  | .minus | .constant _ | .key .null | .name _ => true
  | _ => false

theorem readUnsigned_head {ts : List Symbol} {p : List Symbol × List Symbol}
    (h : readUnsigned ts = some p) :
    ∃ s more, ts = s :: more ∧ startsAtom s = true ∧ s ≠ .minus := by
  unfold readUnsigned at h
  split at h
  · exact ⟨_, _, rfl, rfl, by simp⟩
  · exact ⟨_, _, rfl, rfl, by simp⟩
  · obtain ⟨t, more, rfl⟩ := readPath_head h
    exact ⟨_, _, rfl, rfl, by simp⟩

theorem readAtom_eq {ts a rest : List Symbol} (h : readAtom ts = some (a, rest)) :
    ts = a ++ rest ∧ IsAtom a := by
  unfold readAtom at h
  split at h
  · obtain ⟨⟨a', rest'⟩, hp, heq⟩ := Option.map_eq_some_iff.mp h
    obtain ⟨rfl, hself⟩ := readUnsigned_eq hp
    cases heq
    exact ⟨rfl, by rw [IsAtom, readAtom, hself]; rfl⟩
  · obtain ⟨heq, hself⟩ := readUnsigned_eq h
    obtain ⟨s, more, rfl, -, hminus⟩ := readUnsigned_head hself
    refine ⟨heq, ?_⟩
    rw [IsAtom, readAtom]
    · exact hself
    · rintro ts hts
      exact hminus (List.cons.inj hts).1

theorem IsAtom.append {a rest : List Symbol} (h : IsAtom a) (hrest : rest.head? ≠ some .dot) :
    readAtom (a ++ rest) = some (a, rest) := by
  unfold IsAtom readAtom at h
  split at h
  · obtain ⟨⟨a', rest'⟩, hp, heq⟩ := Option.map_eq_some_iff.mp h
    obtain ⟨rfl, rfl⟩ : a' = _ ∧ rest' = [] := by simpa using heq
    rw [List.cons_append, readAtom, readUnsigned_append hp hrest]
    rfl
  · obtain ⟨s, more, rfl, -, hminus⟩ := readUnsigned_head h
    rw [List.cons_append, readAtom]
    · exact readUnsigned_append h hrest
    · rintro ts hts
      exact hminus (List.cons.inj hts).1

theorem IsAtom.head {a : List Symbol} (h : IsAtom a) :
    ∃ s more, a = s :: more ∧ startsAtom s = true := by
  unfold IsAtom readAtom at h
  split at h
  · exact ⟨_, _, rfl, rfl⟩
  · obtain ⟨s, more, rfl, hs, -⟩ := readUnsigned_head h
    exact ⟨s, more, rfl, hs⟩

/-! ### Groups -/

theorem takeGroup_eq {d : ℕ} {ts q rest : List Symbol} (h : takeGroup d ts = some (q, rest)) :
    ts = q ++ .closeParen :: rest ∧ ∀ us, takeGroup d (q ++ .closeParen :: us) = some (q, us) := by
  induction d, ts using takeGroup.induct generalizing q rest with
  | case1 d => cases h
  | case2 d ts ih =>
    rw [takeGroup] at h
    obtain ⟨⟨q', rest'⟩, hp, heq⟩ := Option.map_eq_some_iff.mp h
    obtain ⟨rfl, hself⟩ := ih hp
    cases heq
    exact ⟨rfl, fun us => by simp [takeGroup, hself]⟩
  | case3 ts =>
    cases h
    exact ⟨rfl, fun us => rfl⟩
  | case4 d ts ih =>
    rw [takeGroup] at h
    obtain ⟨⟨q', rest'⟩, hp, heq⟩ := Option.map_eq_some_iff.mp h
    obtain ⟨rfl, hself⟩ := ih hp
    cases heq
    exact ⟨rfl, fun us => by simp [takeGroup, hself]⟩
  | case5 d t ts hopen hzero hsucc ih =>
    have hcons : ∀ us, takeGroup d (t :: us) = (takeGroup d us).map fun p => (t :: p.1, p.2) := by
      intro us
      rw [takeGroup]
      · exact hopen
      · exact hzero
      · exact hsucc
    rw [hcons] at h
    obtain ⟨⟨q', rest'⟩, hp, heq⟩ := Option.map_eq_some_iff.mp h
    obtain ⟨rfl, hself⟩ := ih hp
    cases heq
    exact ⟨rfl, fun us => by simp [hcons, hself]⟩

theorem IsBalanced.append {q : List Symbol} (h : IsBalanced q) (rest : List Symbol) :
    takeGroup 0 (q ++ .closeParen :: rest) = some (q, rest) :=
  (takeGroup_eq h).2 rest

theorem isBalanced_of_takeGroup {ts q rest : List Symbol} (h : takeGroup 0 ts = some (q, rest)) :
    ts = q ++ .closeParen :: rest ∧ IsBalanced q :=
  ⟨(takeGroup_eq h).1, (takeGroup_eq h).2 []⟩

theorem symbol_openParen : symbol openParen = .openParen := rfl

theorem symbol_closeParen : symbol closeParen = .closeParen := rfl

theorem symbol_of_ne_paren {t : Token} (hopen : t ≠ openParen) (hclose : t ≠ closeParen) :
    symbol t ≠ .openParen ∧ symbol t ≠ .closeParen := by
  rw [symbol.eq_def]
  cases t with
  | word text =>
    dsimp only
    split <;> simp
  | operator text =>
    dsimp only
    split_ifs <;> simp
  | punctuation c =>
    have hc : c ≠ 40 ∧ c ≠ 41 := ⟨fun h => hopen (h ▸ rfl), fun h => hclose (h ▸ rfl)⟩
    dsimp only
    rw [if_neg hc.1, if_neg hc.2]
    split_ifs <;> simp
  | _ => simp

theorem takeGroup_other {s : Symbol} (h : s ≠ .openParen ∧ s ≠ .closeParen) (d : ℕ)
    (ts : List Symbol) : takeGroup d (s :: ts) = (takeGroup d ts).map fun p => (s :: p.1, p.2) := by
  rw [takeGroup]
  · exact h.1
  · rintro rfl rfl
    exact h.2 rfl
  · rintro d' rfl rfl
    exact h.2 rfl

theorem takeGroup_map {d e : ℕ} {ts : List Token} (h : depthAfter anywhere d ts = some e)
    (us : List Symbol) :
    takeGroup d (ts.map symbol ++ us) =
      (takeGroup e us).map fun p => (ts.map symbol ++ p.1, p.2) := by
  induction ts generalizing d with
  | nil =>
    obtain rfl := Option.some.inj h
    simp
  | cons t ts ih =>
    simp only [depthAfter, anywhere, Bool.false_and, Bool.false_eq_true, if_false] at h
    rw [List.map_cons, List.cons_append]
    split_ifs at h with hopen hclose
    · rw [hopen, symbol_openParen, takeGroup, ih h]
      simp [Function.comp_def]
    · cases d with
      | zero => cases h
      | succ d =>
        rw [hclose, symbol_closeParen, takeGroup, ih h]
        simp [Function.comp_def]
    · rw [takeGroup_other (symbol_of_ne_paren hopen hclose), ih h]
      simp [Function.comp_def]

theorem isBalanced_map {ts : List Token} (h : depthAfter anywhere 0 ts = some 0) :
    IsBalanced (ts.map symbol) := by
  rw [IsBalanced, takeGroup_map h]
  simp [takeGroup]

/-! ### Operators -/

def Operator.symbols : Operator → List Symbol
  | .binary op => op.symbols
  | .isNull negated => isNullSymbols negated
  | .isIn => [.key .isIn, .openParen]
  | .between => [.key .between]

/-- The operator is read in the zone. -/
def Operator.InZone (op : Operator) (zone : Zone) : Prop :=
  zone = .bound → ∃ text, op = .binary (.compare text)

theorem Operator.inZone_full (op : Operator) : op.InZone .full := fun hzone => by cases hzone

theorem readOperator_eq {zone : Zone} {ts rest : List Symbol} {op : Operator}
    (h : readOperator zone ts = some (op, rest)) : op.symbols ++ rest = ts ∧ op.InZone zone := by
  unfold readOperator at h
  split at h
  · cases h
    exact ⟨rfl, fun _ => ⟨_, rfl⟩⟩
  all_goals
    cases h
    try exact ⟨rfl, fun hzone => by cases hzone⟩

theorem readOperator_symbols {zone : Zone} {op : Operator} (h : op.InZone zone)
    (rest : List Symbol) : readOperator zone (op.symbols ++ rest) = some (op, rest) := by
  cases zone with
  | bound =>
    obtain ⟨text, rfl⟩ := h rfl
    rfl
  | full =>
    rcases op with (_ | negated | _ | _) | negated | _ | _
    · rfl
    · cases negated <;> rfl
    · rfl
    · rfl
    · cases negated <;> rfl
    · rfl
    · rfl

theorem Operator.level_le (op : Operator) : op.level ≤ 6 := by
  rcases op with (_ | _ | _ | _) | _ | _ | _ <;> simp [level, Connective.level]

theorem Operator.symbols_head (op : Operator) (rest : List Symbol) :
    (op.symbols ++ rest).head? ≠ some .dot ∧ (op.symbols ++ rest).head? ≠ some .closeParen := by
  rcases op with (_ | negated | _ | _) | negated | _ | _
  · simp [symbols, Connective.symbols]
  · cases negated <;> simp [symbols, Connective.symbols]
  · simp [symbols, Connective.symbols]
  · simp [symbols, Connective.symbols]
  · cases negated <;> simp [symbols, isNullSymbols]
  · simp [symbols]
  · simp [symbols]

theorem expect_eq_some {s : Symbol} {ts rest : List Symbol} :
    expect s ts = some rest ↔ ts = s :: rest := by
  cases ts with
  | nil => simp [expect]
  | cons t ts =>
    simp only [expect]
    split_ifs with h
    · simp [h]
    · simp [h]

/-! ### Terms that fit the precedences -/

namespace Term

/-- The term may stand behind BETWEEN. -/
@[simp] def IsBound : {k : Extent} → Term k → Prop
  | _, atom _ | _, group _ | _, existsQuery _ => True
  | _, binary (.compare _) left right => left.IsBound ∧ right.IsBound
  | _, _ => False

def InZone (t : Term .one) (zone : Zone) : Prop := zone = .bound → t.IsBound

theorem inZone_full (t : Term .one) : t.InZone .full := fun hzone => by cases hzone

theorem InZone.eq_full {t : Term .one} {zone : Zone} (h : t.InZone zone) (ht : ¬t.IsBound) :
    zone = .full := by
  cases zone with
  | full => rfl
  | bound => exact absurd (h rfl) ht

/-- Every operator of the term gets its operands. -/
@[simp] def Fits : {k : Extent} → Term k → Prop
  | _, atom symbols => IsAtom symbols
  | _, group inner => inner.Fits
  | _, binary op left right =>
      left.Fits ∧ right.Fits ∧ Yields op.level left.rightLevel ∧ op.level < right.leftLevel
  | _, not operand => operand.Fits ∧ 3 < operand.leftLevel
  | _, isNull _ operand => operand.Fits ∧ 4 < operand.rightLevel
  | _, between operand lower upper =>
      operand.Fits ∧ lower.Fits ∧ upper.Fits ∧ 6 < operand.rightLevel ∧ lower.IsBound ∧
        6 < upper.leftLevel
  | _, inList operand values => operand.Fits ∧ values.Fits ∧ 6 < operand.rightLevel
  | _, existsQuery query => IsBalanced query
  | _, last value => value.Fits
  | _, cons value values => value.Fits ∧ values.Fits

end Term

/-- The next operator, if there is one, leaves what is open at the level. -/
def Stops (zone : Zone) (level : ℕ) (ts : List Symbol) : Prop :=
  ∀ op rest, readOperator zone ts = some (op, rest) → Yields op.level level

theorem stops_seven (zone : Zone) (ts : List Symbol) : Stops zone 7 ts := fun op _ _ =>
  .inl (Nat.lt_succ_of_le op.level_le)

theorem stops_min {zone : Zone} {a b : ℕ} {ts : List Symbol} :
    Stops zone (min a b) ts ↔ Stops zone a ts ∧ Stops zone b ts := by
  have hyields : ∀ q, Yields q (min a b) ↔ Yields q a ∧ Yields q b := by
    intro q
    unfold Yields
    omega
  simp only [Stops, hyields]
  exact ⟨fun h => ⟨fun op rest hop => (h op rest hop).1, fun op rest hop => (h op rest hop).2⟩,
    fun h op rest hop => ⟨h.1 op rest hop, h.2 op rest hop⟩⟩

/-! ### What is read -/

/-- The term is what the symbols begin with, behind an operator of level `above`. -/
structure Read (zone : Zone) (above : ℕ) (ts : List Symbol) (t : Term .one)
    (rest : List Symbol) : Prop where
  symbols : t.symbols ++ rest = ts
  fits : t.Fits
  inZone : t.InZone zone
  left : above < t.leftLevel
  right : Stops zone t.rightLevel rest

section

variable {zone : Zone} {above : ℕ} {us ts rest more : List Symbol} {left t : Term .one}

theorem Read.weaken (h : Read zone 6 ts t rest) (habove : above ≤ 6) : Read zone above ts t rest :=
  { h with left := lt_of_le_of_lt habove h.left }

theorem read_atom (h : readAtom ts = some (us, rest)) : Read zone 6 ts (.atom us) rest where
  symbols := (readAtom_eq h).1.symm
  fits := (readAtom_eq h).2
  inZone := fun _ => trivial
  left := Nat.lt_succ_self 6
  right := stops_seven zone rest

theorem read_group (h : Read .full 0 ts t (.closeParen :: rest)) :
    Read zone 6 (.openParen :: ts) (.group t) rest where
  symbols := by simp [Term.symbols, ← h.symbols]
  fits := h.fits
  inZone := fun _ => trivial
  left := Nat.lt_succ_self 6
  right := stops_seven zone rest

theorem read_existsQuery (h : takeGroup 0 ts = some (us, rest)) :
    Read zone 6 (.key .exist :: .openParen :: ts) (.existsQuery us) rest where
  symbols := by simp [Term.symbols, (isBalanced_of_takeGroup h).1]
  fits := (isBalanced_of_takeGroup h).2
  inZone := fun _ => trivial
  left := Nat.lt_succ_self 6
  right := stops_seven zone rest

theorem read_not (h : Read .full 3 ts t rest) (hstop : Stops .full 3 rest) :
    Read .full 6 (.key .not :: ts) (.not t) rest where
  symbols := by simp [Term.symbols, ← h.symbols]
  fits := ⟨h.fits, h.left⟩
  inZone := Term.inZone_full _
  left := Nat.lt_succ_self 6
  right := stops_min.mpr ⟨hstop, h.right⟩

section

variable (h : Read zone above us left ts)

include h

theorem Read.binary {op : Connective} (hop : readOperator zone ts = some (.binary op, more))
    (habove : above < op.level) (ht : Read zone op.level more t rest)
    (hstop : Stops zone op.level rest) : Read zone above us (.binary op left t) rest where
  symbols := by
    rw [← h.symbols, ← (readOperator_eq hop).1, ← ht.symbols]
    simp [Term.symbols, Operator.symbols]
  fits := ⟨h.fits, ht.fits, h.right _ _ hop, ht.left⟩
  inZone := fun hzone => by
    obtain ⟨text, htext⟩ := (readOperator_eq hop).2 hzone
    cases htext
    exact ⟨h.inZone hzone, ht.inZone hzone⟩
  left := lt_min habove h.left
  right := stops_min.mpr ⟨hstop, ht.right⟩

theorem Read.isNull {negated : Bool} (hop : readOperator zone ts = some (.isNull negated, rest))
    (habove : above < 4) : Read zone above us (.isNull negated left) rest where
  symbols := by
    rw [← h.symbols, ← (readOperator_eq hop).1]
    simp [Term.symbols, Operator.symbols]
  fits := ⟨h.fits, by simpa [Yields, Operator.level] using h.right _ _ hop⟩
  inZone := fun hzone => by
    obtain ⟨text, htext⟩ := (readOperator_eq hop).2 hzone
    cases htext
  left := lt_min habove h.left
  right := stops_seven zone rest

theorem Read.inList {values : Term .list} (hop : readOperator zone ts = some (.isIn, more))
    (habove : above < 6) (hsymbols : values.symbols ++ .closeParen :: rest = more)
    (hvalues : values.Fits) : Read zone above us (.inList left values) rest where
  symbols := by
    rw [← h.symbols, ← (readOperator_eq hop).1, ← hsymbols]
    simp [Term.symbols, Operator.symbols]
  fits := ⟨h.fits, hvalues, by simpa [Yields, Operator.level] using h.right _ _ hop⟩
  inZone := fun hzone => by
    obtain ⟨text, htext⟩ := (readOperator_eq hop).2 hzone
    cases htext
  left := lt_min habove h.left
  right := stops_seven zone rest

theorem Read.between {lower upper : Term .one} {mid : List Symbol}
    (hop : readOperator zone ts = some (.between, more)) (habove : above < 6)
    (hlower : Read .bound 0 more lower (.key .and :: mid)) (hupper : Read .full 6 mid upper rest)
    (hstop : Stops .full 6 rest) : Read zone above us (.between left lower upper) rest where
  symbols := by
    rw [← h.symbols, ← (readOperator_eq hop).1, ← hlower.symbols, ← hupper.symbols]
    simp [Term.symbols, Operator.symbols]
  fits := ⟨h.fits, hlower.fits, hupper.fits,
    by simpa [Yields, Operator.level] using h.right _ _ hop, hlower.inZone rfl, hupper.left⟩
  inZone := fun hzone => by
    obtain ⟨text, htext⟩ := (readOperator_eq hop).2 hzone
    cases htext
  left := lt_min habove h.left
  right := by
    cases zone with
    | full => exact stops_min.mpr ⟨hstop, hupper.right⟩
    | bound =>
      obtain ⟨text, htext⟩ := (readOperator_eq hop).2 rfl
      cases htext

end

end

/-- With fuel `n` nothing is read that is not there. -/
structure SoundAt (n : ℕ) : Prop where
  expr {zone : Zone} {above : ℕ} {ts rest : List Symbol} {t : Term .one} (habove : above ≤ 6)
    (h : parseExpr n zone above ts = some (t, rest)) :
    Read zone above ts t rest ∧ Stops zone above rest
  primary {zone : Zone} {ts rest : List Symbol} {t : Term .one}
    (h : parsePrimary n zone ts = some (t, rest)) : Read zone 6 ts t rest
  more {zone : Zone} {above : ℕ} {us ts rest : List Symbol} {left t : Term .one}
    (hleft : Read zone above us left ts) (h : parseRest n zone above left ts = some (t, rest)) :
    Read zone above us t rest ∧ Stops zone above rest
  values {ts rest : List Symbol} {values : Term .list}
    (h : parseValues n ts = some (values, rest)) :
    values.symbols ++ .closeParen :: rest = ts ∧ values.Fits

section

variable {n : ℕ} {zone : Zone} {above : ℕ} {us ts rest : List Symbol} {left t : Term .one}

theorem SoundAt.parsePrimary_succ (hn : SoundAt n)
    (h : parsePrimary (n + 1) zone ts = some (t, rest)) : Read zone 6 ts t rest := by
  rw [parsePrimary.eq_def] at h
  dsimp only at h
  split at h
  · obtain ⟨⟨inner, rest₁⟩, hexpr, hclose⟩ := Option.bind_eq_some_iff.mp h
    obtain ⟨rest₂, hrest, heq⟩ := Option.map_eq_some_iff.mp hclose
    obtain rfl := expect_eq_some.mp hrest
    cases heq
    exact read_group (hn.expr (by decide) hexpr).1
  · obtain ⟨⟨operand, rest₁⟩, hexpr, heq⟩ := Option.map_eq_some_iff.mp h
    cases heq
    obtain ⟨hread, hstop⟩ := hn.expr (by decide) hexpr
    exact read_not hread hstop
  · obtain ⟨⟨query, rest₁⟩, hgroup, heq⟩ := Option.map_eq_some_iff.mp h
    cases heq
    exact read_existsQuery hgroup
  · obtain ⟨⟨symbols, rest₁⟩, hatom, heq⟩ := Option.map_eq_some_iff.mp h
    cases heq
    exact read_atom hatom

theorem SoundAt.parseRest_succ (hn : SoundAt n) (hleft : Read zone above us left ts)
    (h : parseRest (n + 1) zone above left ts = some (t, rest)) :
    Read zone above us t rest ∧ Stops zone above rest := by
  rw [parseRest] at h
  split at h
  next hnone =>
    cases h
    exact ⟨hleft, fun op more hop => by rw [hnone] at hop; cases hop⟩
  next op more hop =>
    split_ifs at h with hyields heq
    · cases h
      refine ⟨hleft, fun op' more' hop' => ?_⟩
      rw [hop] at hop'
      cases hop'
      exact hyields
    have habove : above < op.level := by
      unfold Yields at hyields
      omega
    cases op with
    | binary op =>
      obtain ⟨⟨right, rest₁⟩, hexpr, hmore⟩ := Option.bind_eq_some_iff.mp h
      obtain ⟨hread, hstop⟩ := hn.expr (Operator.binary op).level_le hexpr
      exact hn.more (hleft.binary hop habove hread hstop) hmore
    | isNull negated => exact hn.more (hleft.isNull hop habove) h
    | isIn =>
      obtain ⟨⟨values, rest₁⟩, hvalues, hmore⟩ := Option.bind_eq_some_iff.mp h
      obtain ⟨hsymbols, hfits⟩ := hn.values hvalues
      exact hn.more (hleft.inList hop habove hsymbols hfits) hmore
    | between =>
      obtain ⟨⟨lower, rest₁⟩, hlower, hand⟩ := Option.bind_eq_some_iff.mp h
      obtain ⟨rest₂, hrest, hand⟩ := Option.bind_eq_some_iff.mp hand
      obtain ⟨⟨upper, rest₃⟩, hupper, hmore⟩ := Option.bind_eq_some_iff.mp hand
      obtain rfl := expect_eq_some.mp hrest
      obtain ⟨hread, hstop⟩ := hn.expr le_rfl hupper
      exact hn.more (hleft.between hop habove (hn.expr (by decide) hlower).1 hread hstop) hmore

theorem SoundAt.parseValues_succ (hn : SoundAt n) {values : Term .list}
    (h : parseValues (n + 1) ts = some (values, rest)) :
    values.symbols ++ .closeParen :: rest = ts ∧ values.Fits := by
  rw [parseValues.eq_def] at h
  dsimp only at h
  obtain ⟨⟨value, rest₁⟩, hexpr, hmore⟩ := Option.bind_eq_some_iff.mp h
  obtain ⟨hread, -⟩ := hn.expr (by decide) hexpr
  split at hmore
  next rest₂ hrest =>
    obtain ⟨⟨values', rest₃⟩, hvalues, heq⟩ := Option.map_eq_some_iff.mp hmore
    cases heq
    obtain ⟨hsymbols', hfits⟩ := hn.values hvalues
    obtain rfl : rest₁ = .comma :: rest₂ := hrest
    refine ⟨?_, hread.fits, hfits⟩
    rw [← hread.symbols, ← hsymbols']
    simp [Term.symbols]
  next rest₂ hrest =>
    obtain rfl : rest₁ = .closeParen :: rest₂ := hrest
    cases hmore
    exact ⟨hread.symbols, hread.fits⟩
  next => cases hmore

theorem soundAt (n : ℕ) : SoundAt n := by
  induction n with
  | zero =>
    constructor
    · intro zone above ts rest t _ h
      cases h
    · intro zone ts rest t h
      cases h
    · intro zone above us ts rest left t _ h
      cases h
    · intro ts rest values h
      cases h
  | succ n ih =>
    refine ⟨fun habove h => ?_, ih.parsePrimary_succ, ih.parseRest_succ, ih.parseValues_succ⟩
    obtain ⟨⟨t₁, rest₁⟩, hprimary, hmore⟩ := Option.bind_eq_some_iff.mp h
    exact ih.more ((ih.primary hprimary).weaken habove) hmore

end

end Demiplane.Sql

import Demiplane.Query.Nesting
import Demiplane.Sql.Roundtrip

/-!
Conditions as the server reads them. The visitor puts parentheses around binary
expressions and around nothing else.
-/

namespace Demiplane.Query

open Text Sql Sql.Lexer

/-! ### Trees -/

/-- The node is part of a condition over columns, literals and placeholders without
aliases. -/
def Node.isCondition : {k : Arity} → Node k → Bool
  | _, .column (.column _ _ aliasName) => aliasName = []
  | _, .literal _ _ aliasName => aliasName = []
  | _, .nullLiteral | _, .paramPlaceholder => true
  | _, .binaryExpr _ left right => left.isCondition && right.isCondition
  | _, .unaryExpr _ operand => operand.isCondition
  | _, .betweenExpr operand lower upper =>
      operand.isCondition && lower.isCondition && upper.isCondition
  | _, .inListExpr operand values => operand.isCondition && values.isCondition
  | _, .existsExpr query => !query.createsTable
  | _, .nil => true
  | _, .cons head tail => head.isCondition && tail.isCondition
  | _, _ => false

/-- IN between two operands is none of the grammar's connectives. -/
def BinaryOp.connective : BinaryOp → Option Connective
  | .equal => some (.compare (ascii "="))
  | .notEqual => some (.compare (ascii "!="))
  | .less => some (.compare (ascii "<"))
  | .lessEqual => some (.compare (ascii "<="))
  | .greater => some (.compare (ascii ">"))
  | .greaterEqual => some (.compare (ascii ">="))
  | .and => some .and
  | .or => some .or
  | .like => some (.like false)
  | .notLike => some (.like true)
  | .isIn => none

/-- The symbols that are written for the slots. -/
def writtenSymbols (floats : FloatFormat) (cfg : Setting) (v : Visitor) (slots : List Slot) :
    List Symbol :=
  ((written cfg v slots).flatMap (Piece.tokens floats)).map symbol

abbrev extent : Arity → Extent
  | .tuple => .list
  | _ => .one

section

variable (floats : FloatFormat) (cfg : Setting)

/-- Trees are built along with the text, which the numbers of the parameters depend on. -/
abbrev Build := StateT Visitor Option

def write (slots : List Slot) : Build (List Symbol) := fun v =>
  some (writtenSymbols floats cfg v slots, fill cfg slots v)

/-- The tree that was built, its leaves as they are written. There is none for IN between
two operands and for an empty list. -/
@[simp] def Node.term : {k : Arity} → Node k → (isFirst : Bool) → Build (Term (extent k))
  | _, .column col, _ => do return .atom (← write floats cfg (columnSlots col))
  | _, .literal _ value aliasName, _ => do
      return .atom (← write floats cfg (.hole (.literal value) :: aliasSlots aliasName))
  | _, .nullLiteral, _ => do return .atom (← write floats cfg [slot "NULL"])
  | _, .paramPlaceholder, _ => do return .atom (← write floats cfg [.hole .placeholder])
  | _, .binaryExpr op left right, _ => do
      let connective ← op.connective
      let _ ← write floats cfg [slot "("]
      let l ← left.term true
      let _ ← write floats cfg [slot (binaryOpText op)]
      let r ← right.term true
      let _ ← write floats cfg [slot ")"]
      return .binary connective l r
  | _, .unaryExpr .not operand, _ => do
      let _ ← write floats cfg [slot "NOT "]
      return .not (← operand.term true)
  | _, .unaryExpr .isNull operand, _ => do
      let t ← operand.term true
      let _ ← write floats cfg [slot " IS NULL"]
      return .isNull false t
  | _, .unaryExpr .isNotNull operand, _ => do
      let t ← operand.term true
      let _ ← write floats cfg [slot " IS NOT NULL"]
      return .isNull true t
  | _, .betweenExpr operand lower upper, _ => do
      let t ← operand.term true
      let _ ← write floats cfg [slot " BETWEEN "]
      let l ← lower.term true
      let _ ← write floats cfg [slot " AND "]
      let u ← upper.term true
      return .between t l u
  | _, .inListExpr operand values, _ => do
      let t ← operand.term true
      let _ ← write floats cfg [slot " IN ("]
      let vs ← values.term true
      let _ ← write floats cfg [slot ")"]
      return .inList t vs
  | _, .existsExpr query, _ => do
      let _ ← write floats cfg [slot "EXISTS ("]
      let q ← write floats cfg (template query true)
      let _ ← write floats cfg [slot ")"]
      return .existsQuery q
  | _, .cons head .nil, isFirst => do
      let _ ← write floats cfg (optionalSlots (!isFirst) [slot ", "])
      return .last (← head.term true)
  | _, .cons head (.cons second tail), isFirst => do
      let _ ← write floats cfg (optionalSlots (!isFirst) [slot ", "])
      let t ← head.term true
      return .cons t (← (Node.cons second tail).term false)
  | _, _, _ => failure

end

/-- The parentheses that the visitor writes. -/
@[simp] def parenthesised : {k : Extent} → Term k → Term k
  | _, .atom symbols => .atom symbols
  | _, .group inner => .group (parenthesised inner)
  | _, .binary op left right => .group (.binary op (parenthesised left) (parenthesised right))
  | _, .not operand => .not (parenthesised operand)
  | _, .isNull negated operand => .isNull negated (parenthesised operand)
  | _, .between operand lower upper =>
      .between (parenthesised operand) (parenthesised lower) (parenthesised upper)
  | _, .inList operand values => .inList (parenthesised operand) (parenthesised values)
  | _, .existsQuery query => .existsQuery query
  | _, .last value => .last (parenthesised value)
  | _, .cons value values => .cons (parenthesised value) (parenthesised values)

theorem strip_parenthesised {k : Extent} (t : Term k) : (parenthesised t).strip = t.strip := by
  induction t with
  | atom symbols => rfl
  | existsQuery query => rfl
  | group inner ih => exact ih
  | binary op left right ihl ihr => simp [parenthesised, Term.strip, ihl, ihr]
  | not operand ih => simp [parenthesised, Term.strip, ih]
  | isNull negated operand ih => simp [parenthesised, Term.strip, ih]
  | between operand lower upper iho ihl ihu => simp [parenthesised, Term.strip, iho, ihl, ihu]
  | inList operand values iho ihv => simp [parenthesised, Term.strip, iho, ihv]
  | last value ih => simp [parenthesised, Term.strip, ih]
  | cons value values ih ihv => simp [parenthesised, Term.strip, ih, ihv]

/-! ### When a condition is read as it was built -/

def BinaryOp.level : BinaryOp → ℕ
  | .or => 1
  | .and => 2
  | .like | .notLike | .isIn => 6
  | _ => 5

/-- The loosest operator that has no parenthesis on its left; 7 where there is none. -/
@[simp] def Node.leftLevel : {k : Arity} → Node k → ℕ
  | _, .unaryExpr .isNull operand => min 4 operand.leftLevel
  | _, .unaryExpr .isNotNull operand => min 4 operand.leftLevel
  | _, .betweenExpr operand _ _ => min 6 operand.leftLevel
  | _, .inListExpr operand _ => min 6 operand.leftLevel
  | _, _ => 7

/-- The loosest operator that has no parenthesis on its right. -/
@[simp] def Node.rightLevel : {k : Arity} → Node k → ℕ
  | _, .unaryExpr .not operand => min 3 operand.rightLevel
  | _, .betweenExpr _ _ upper => min 6 upper.rightLevel
  | _, _ => 7

/-- The operators of the tree are tight enough for the places that they are in. The query of an
EXISTS is not looked into: it is compared as the sequence of its symbols. -/
@[simp] def Node.isReadable : {k : Arity} → Node k → Bool
  | _, .binaryExpr op left right =>
      op ≠ .isIn && left.isReadable && right.isReadable && op.level < left.rightLevel &&
        op.level < right.leftLevel
  | _, .unaryExpr .not operand => operand.isReadable
  | _, .unaryExpr .isNull operand => operand.isReadable && 4 < operand.rightLevel
  | _, .unaryExpr .isNotNull operand => operand.isReadable && 4 < operand.rightLevel
  | _, .betweenExpr operand lower upper =>
      operand.isReadable && lower.isReadable && upper.isReadable && 6 < operand.rightLevel &&
        (lower.leftLevel = 7 && lower.rightLevel = 7) && 6 < upper.leftLevel
  | _, .inListExpr operand values =>
      operand.isReadable && values.isReadable && 6 < operand.rightLevel
  | _, .nil => false
  | _, .cons head .nil => head.isReadable
  | _, .cons head (.cons second tail) => head.isReadable && (Node.cons second tail).isReadable
  | _, _ => true

/-! ### Trees and conditions -/

theorem BinaryOp.level_connective {op : BinaryOp} {c : Connective} (h : op.connective = some c) :
    c.level = op.level := by
  cases op <;> cases h <;> rfl

theorem BinaryOp.connective_isIn {op : BinaryOp} {c : Connective} (h : op.connective = some c) :
    op ≠ .isIn := by
  rintro rfl
  cases h

theorem Node.four_le_leftLevel {k : Arity} (e : Node k) : 4 ≤ e.leftLevel := by
  induction e with
  | unaryExpr op operand ih =>
    cases op with
    | not => exact (by decide : 4 ≤ 7)
    | isNull => exact le_min le_rfl ih
    | isNotNull => exact le_min le_rfl ih
  | betweenExpr operand lower upper iho ihl ihu => exact le_min (by decide) iho
  | inListExpr operand values iho ihv => exact le_min (by decide) iho
  | _ => exact (by decide : 4 ≤ 7)

theorem Node.three_le_rightLevel {k : Arity} (e : Node k) : 3 ≤ e.rightLevel := by
  induction e with
  | unaryExpr op operand ih =>
    cases op with
    | not => exact le_min le_rfl ih
    | isNull => exact (by decide : 3 ≤ 7)
    | isNotNull => exact (by decide : 3 ≤ 7)
  | betweenExpr operand lower upper iho ihl ihu => exact le_min (by decide) ihu
  | _ => exact (by decide : 3 ≤ 7)

/-- The tree that was built for a node, as the node's levels and readability say. -/
structure Describes {k : Arity} (e : Node k) (t : Term (extent k)) : Prop where
  strip : t.strip = t
  left : (parenthesised t).leftLevel = e.leftLevel
  right : (parenthesised t).rightLevel = e.rightLevel
  bound (hk : k = .expression) : (parenthesised t).IsBound ↔ e.leftLevel = 7 ∧ e.rightLevel = 7
  fits : (parenthesised t).Fits ↔ e.isReadable = true

namespace Describes

theorem binary {op : BinaryOp} {c : Connective} (hop : op.connective = some c)
    {left right : Expression} {l r : Term .one} (hl : Describes left l) (hr : Describes right r) :
    Describes (.binaryExpr op left right) (.binary c l r) where
  strip := by rw [Term.strip, hl.strip, hr.strip]
  left := rfl
  right := rfl
  bound _ := iff_of_true trivial ⟨rfl, rfl⟩
  fits := by
    have hlevel := op.level_connective hop
    have hright := left.three_le_rightLevel
    have hyields : Yields op.level left.rightLevel ↔ op.level < left.rightLevel := by
      unfold Yields
      omega
    simp only [parenthesised, Term.Fits, Node.isReadable, hl.fits, hr.fits, hlevel, hl.right,
      hr.left, hyields, op.connective_isIn hop, ne_eq, not_false_eq_true, decide_true,
      Bool.true_and, Bool.and_eq_true, decide_eq_true_eq, and_assoc]

theorem not {operand : Expression} {t : Term .one} (h : Describes operand t) :
    Describes (.unaryExpr .not operand) (.not t) where
  strip := by rw [Term.strip, h.strip]
  left := rfl
  right := by rw [parenthesised, Term.rightLevel, h.right, Node.rightLevel]
  bound _ := by
    have hright := operand.three_le_rightLevel
    simp only [parenthesised, Term.IsBound, Node.rightLevel, false_iff]
    omega
  fits := by
    have hleft := operand.four_le_leftLevel
    simp only [parenthesised, Term.Fits, h.fits, h.left, Node.isReadable, and_iff_left_iff_imp]
    intro _
    omega

theorem isNull {operand : Expression} {t : Term .one} (h : Describes operand t) :
    Describes (.unaryExpr .isNull operand) (.isNull false t) ∧
      Describes (.unaryExpr .isNotNull operand) (.isNull true t) := by
  constructor <;>
  · constructor
    · rw [Term.strip, h.strip]
    · rw [parenthesised, Term.leftLevel, h.left, Node.leftLevel]
    · rfl
    · intro _
      simp only [parenthesised, Term.IsBound, Node.leftLevel, false_iff]
      omega
    · simp only [parenthesised, Term.Fits, h.fits, h.right, Node.isReadable, Bool.and_eq_true,
        decide_eq_true_eq]

theorem between {operand lower upper : Expression} {x l u : Term .one} (hx : Describes operand x)
    (hl : Describes lower l) (hu : Describes upper u) :
    Describes (.betweenExpr operand lower upper) (.between x l u) where
  strip := by rw [Term.strip, hx.strip, hl.strip, hu.strip]
  left := by rw [parenthesised, Term.leftLevel, hx.left, Node.leftLevel]
  right := by rw [parenthesised, Term.rightLevel, hu.right, Node.rightLevel]
  bound _ := by
    simp only [parenthesised, Term.IsBound, Node.leftLevel, false_iff]
    omega
  fits := by
    simp only [parenthesised, Term.Fits, hx.fits, hl.fits, hu.fits, hx.right, hl.bound rfl, hu.left,
      Node.isReadable, Bool.and_eq_true, decide_eq_true_eq, and_assoc]

theorem inList {operand : Expression} {values : Node .tuple} {x : Term .one} {vs : Term .list}
    (hx : Describes operand x) (hv : Describes values vs) :
    Describes (.inListExpr operand values) (.inList x vs) where
  strip := by rw [Term.strip, hx.strip, hv.strip]
  left := by rw [parenthesised, Term.leftLevel, hx.left, Node.leftLevel]
  right := rfl
  bound _ := by
    simp only [parenthesised, Term.IsBound, Node.leftLevel, false_iff]
    omega
  fits := by
    simp only [parenthesised, Term.Fits, hx.fits, hv.fits, hx.right, Node.isReadable,
      Bool.and_eq_true, decide_eq_true_eq, and_assoc]

theorem last {head : Expression} {t : Term .one} (h : Describes head t) :
    Describes (.cons head .nil) (.last t) where
  strip := by rw [Term.strip, h.strip]
  left := rfl
  right := rfl
  bound hk := by cases hk
  fits := h.fits

theorem cons {head second : Expression} {tail : Node .tuple} {t : Term .one} {ts : Term .list}
    (h : Describes head t) (hs : Describes (.cons second tail) ts) :
    Describes (.cons head (.cons second tail)) (.cons t ts) where
  strip := by rw [Term.strip, h.strip, hs.strip]
  left := rfl
  right := rfl
  bound hk := by cases hk
  fits := by
    rw [parenthesised, Term.Fits, h.fits, hs.fits, Node.isReadable, Bool.and_eq_true]

theorem atom {e : Expression} {symbols : List Symbol} (h : IsAtom symbols)
    (hleft : e.leftLevel = 7) (hright : e.rightLevel = 7) (hreadable : e.isReadable = true) :
    Describes e (.atom symbols) where
  strip := rfl
  left := hleft.symm
  right := hright.symm
  bound _ := iff_of_true trivial ⟨hleft, hright⟩
  fits := iff_of_true h hreadable

theorem existsQuery (query : Expression) {symbols : List Symbol} (h : IsBalanced symbols) :
    Describes (.existsExpr query) (.existsQuery symbols) where
  strip := rfl
  left := rfl
  right := rfl
  bound _ := iff_of_true trivial ⟨rfl, rfl⟩
  fits := iff_of_true h rfl

end Describes

/-! ### The text of a condition -/

section

variable {floats : FloatFormat} {cfg : Setting}

/-- Filling the slots adds these symbols to the text. -/
structure Writes (floats : FloatFormat) (cfg : Setting) (v : Visitor) (slots : List Slot)
    (symbols : List Symbol) (v' : Visitor) : Prop where
  symbols : writtenSymbols floats cfg v slots = symbols
  visitor : fill cfg slots v = v'

theorem Writes.append {v v' v'' : Visitor} {slots more : List Slot} {symbols symbols' : List Symbol}
    (h : Writes floats cfg v slots symbols v') (hmore : Writes floats cfg v' more symbols' v'') :
    Writes floats cfg v (slots ++ more) (symbols ++ symbols') v'' where
  symbols := by
    rw [← h.symbols, ← hmore.symbols, writtenSymbols, written_append, h.visitor]
    simp [writtenSymbols]
  visitor := by rw [fill_append, h.visitor, hmore.visitor]

theorem writes (floats : FloatFormat) (cfg : Setting) (v : Visitor) (slots : List Slot) :
    Writes floats cfg v slots (writtenSymbols floats cfg v slots) (fill cfg slots v) := ⟨rfl, rfl⟩

theorem writes_slot (s : String) (symbols : List Symbol)
    (h : (scan (ascii s)).map symbol = symbols) (v : Visitor) :
    Writes floats cfg v [slot s] symbols (fill cfg [slot s] v) where
  symbols := by
    rw [writtenSymbols, written_slot, List.flatMap_singleton, ← h]
    rfl
  visitor := rfl

theorem writtenSymbols_name (name : Text) (v : Visitor) :
    writtenSymbols floats cfg v [nameSlot name] = [.name (.quoted false name)] := by
  have hpiece : written cfg v [nameSlot name] = [.identifier name] := List.drop_left
  rw [writtenSymbols, hpiece, List.flatMap_singleton, Piece.tokens, Piece.render, scan,
    run_quoteIdentifier]
  rfl

theorem isAtom_column (name table : Text) (v : Visitor) :
    IsAtom (writtenSymbols floats cfg v (columnSlots (.column name table []))) := by
  have hname : columnSlots (.column name table []) = qualifierSlots table ++ [nameSlot name] := rfl
  rw [hname, qualifierSlots]
  split_ifs
  · have hdot := (writes floats cfg v [nameSlot table]).append
      ((writes_slot "." [.dot] rfl _).append (writes floats cfg _ [nameSlot name]))
    rw [writtenSymbols_name, writtenSymbols_name] at hdot
    have hsymbols : writtenSymbols floats cfg v ([nameSlot table, slot "."] ++ [nameSlot name]) =
        [.name (.quoted false table), .dot, .name (.quoted false name)] := hdot.symbols
    rw [hsymbols]
    rfl
  · rw [List.nil_append, writtenSymbols_name]
    rfl

theorem isAtom_constantWord {w : Text} (h : w ∈ constantWords) :
    IsAtom [symbol (.word w)] ∧ IsAtom [.minus, symbol (.word w)] := by
  have hall : ∀ w ∈ constantWords,
      IsAtom [symbol (.word w)] ∧ IsAtom [.minus, symbol (.word w)] := by decide
  exact hall w h

theorem IsSigned.isAtom {t : Text} (h : IsSigned t) : IsAtom ((scan t).map symbol) := by
  obtain ⟨mode, hmode, hrun⟩ := h
  have hpending : IsAtom ((pending mode).map symbol) ∧
      IsAtom (.minus :: (pending mode).map symbol) := by
    cases mode with
    | word acc => exact isAtom_constantWord (by simpa [ofConstant] using hmode)
    | number acc => exact ⟨rfl, rfl⟩
    | stringEnd kind acc => exact ⟨rfl, rfl⟩
    | _ => cases hmode
  rcases hrun with hrun | hrun
  · rw [scan, hrun]
    exact hpending.1
  · rw [scan, hrun]
    exact hpending.2

theorem Piece.isAtom (floats : FloatFormat) {p : Piece} (h : p.shape = .token) :
    IsAtom ((p.tokens floats).map symbol) := by
  cases p with
  | number n =>
    rw [Piece.tokens, Piece.render, Gears.constexprToString_eq]
    exact (isConstant_decimal n).signed.isAtom
  | value v => exact (isSigned_formatValue floats v).isAtom
  | param index origin =>
    rw [Piece.tokens, Piece.render, scan, run_placeholder]
    rfl
  | _ => cases h

theorem isAtom_hole (origin : Origin) (v : Visitor) :
    IsAtom (writtenSymbols floats cfg v [.hole origin]) := by
  obtain ⟨p, ps, hpieces, hshape, hnil⟩ :=
    List.map_eq_cons_iff.mp (written_shapes cfg v [.hole origin])
  obtain rfl := List.map_eq_nil_iff.mp hnil
  rw [writtenSymbols, hpieces, List.flatMap_singleton]
  exact Piece.isAtom floats hshape

/-- A query is in parentheses as a whole. -/
theorem isBalanced_query {query : Expression} (h : query.createsTable = false) (v : Visitor) :
    IsBalanced (writtenSymbols floats cfg v (template query true)) := by
  refine isBalanced_map (depthAfter_pieces (fun _ _ => rfl) floats ?_)
  rw [written_shapes]
  exact onlySets_anywhere.template query true h (.inl rfl) 0

end

/-- What stands in front of the text of a node: in a list that goes on, a comma. -/
def lead : Arity → (isFirst : Bool) → List Symbol
  | .tuple, false => [.comma]
  | _, _ => []

/-- Either there is a tree for the node and its text is that of the tree, or there is none
and the node is not readable. -/
def Built (floats : FloatFormat) (cfg : Setting) (v : Visitor) (isFirst : Bool) {k : Arity}
    (e : Node k) : Option (Term (extent k) × Visitor) → Prop
  | some (t, v') =>
      Writes floats cfg v (template e isFirst) (lead k isFirst ++ (parenthesised t).symbols) v' ∧
        Describes e t
  | none => e.isReadable = false

section

variable {floats : FloatFormat} {cfg : Setting}

theorem run_write (slots : List Slot) (v : Visitor) :
    (write floats cfg slots).run v = some (writtenSymbols floats cfg v slots, fill cfg slots v) :=
  rfl

/-- A tree inside of another: where there is none for the part, there is none at all. -/
theorem build_bind {α : Type} {P : Option (α × Visitor) → Prop} {k : Arity} {e : Node k}
    {v : Visitor} {isFirst : Bool} {f : Term (extent k) × Visitor → Option (α × Visitor)}
    (h : Built floats cfg v isFirst e ((e.term floats cfg isFirst).run v))
    (hnone : e.isReadable = false → P none)
    (hsome : ∀ t v', Writes floats cfg v (template e isFirst)
      (lead k isFirst ++ (parenthesised t).symbols) v' → Describes e t → P (f (t, v'))) :
    P ((e.term floats cfg isFirst).run v >>= f) := by
  cases hrun : (e.term floats cfg isFirst).run v with
  | none =>
    rw [hrun] at h
    exact hnone h
  | some p =>
    obtain ⟨t, v'⟩ := p
    rw [hrun] at h
    exact hsome t v' h.1 h.2

section

variable (v : Visitor) (isFirst : Bool) {operand lower upper left right : Expression}

theorem tokens_binaryOpText {op : BinaryOp} {c : Connective} (hop : op.connective = some c) :
    (scan (ascii (binaryOpText op))).map symbol = c.symbols := by
  cases op <;> cases hop <;> decide

theorem built_binary (op : BinaryOp)
    (hl : ∀ v, Built floats cfg v true left ((left.term floats cfg true).run v))
    (hr : ∀ v, Built floats cfg v true right ((right.term floats cfg true).run v)) :
    Built floats cfg v isFirst (.binaryExpr op left right)
      (((Node.binaryExpr op left right).term floats cfg isFirst).run v) := by
  simp only [Node.term, StateT.run_bind, run_write]
  cases hop : op.connective with
  | none =>
    change (Node.binaryExpr op left right).isReadable = false
    cases op <;> cases hop
    rfl
  | some c =>
    refine build_bind (hl _) (fun hfalse => by simp [Built, Node.isReadable, hfalse])
      fun l v₁ hwl hdl => ?_
    refine build_bind (hr _) (fun hfalse => by simp [Built, Node.isReadable, hfalse])
      fun r v₂ hwr hdr => ?_
    refine ⟨?_, .binary hop hdl hdr⟩
    have hall := (writes_slot "(" [.openParen] rfl v).append (hwl.append
      ((writes_slot _ _ (tokens_binaryOpText hop) v₁).append
        (hwr.append (writes_slot ")" [.closeParen] rfl v₂))))
    simpa [template, parenthesised, Term.symbols, lead] using hall

theorem built_not
    (h : ∀ v, Built floats cfg v true operand ((operand.term floats cfg true).run v)) :
    Built floats cfg v isFirst (.unaryExpr .not operand)
      (((Node.unaryExpr .not operand).term floats cfg isFirst).run v) := by
  simp only [Node.term, StateT.run_bind, run_write]
  refine build_bind (h _) id fun t v₁ hw hd => ?_
  exact ⟨(writes_slot "NOT " [.key .not] rfl v).append hw, hd.not⟩

theorem built_isNull
    (h : ∀ v, Built floats cfg v true operand ((operand.term floats cfg true).run v)) :
    Built floats cfg v isFirst (.unaryExpr .isNull operand)
      (((Node.unaryExpr .isNull operand).term floats cfg isFirst).run v) := by
  simp only [Node.term, StateT.run_bind, run_write]
  refine build_bind (h _) (fun hfalse => by simp [Built, Node.isReadable, hfalse])
    fun t v₁ hw hd => ?_
  exact ⟨hw.append (writes_slot " IS NULL" [.key .is, .key .null] rfl v₁), hd.isNull.1⟩

theorem built_isNotNull
    (h : ∀ v, Built floats cfg v true operand ((operand.term floats cfg true).run v)) :
    Built floats cfg v isFirst (.unaryExpr .isNotNull operand)
      (((Node.unaryExpr .isNotNull operand).term floats cfg isFirst).run v) := by
  simp only [Node.term, StateT.run_bind, run_write]
  refine build_bind (h _) (fun hfalse => by simp [Built, Node.isReadable, hfalse])
    fun t v₁ hw hd => ?_
  exact ⟨hw.append (writes_slot " IS NOT NULL" [.key .is, .key .not, .key .null] rfl v₁),
    hd.isNull.2⟩

theorem built_between
    (ho : ∀ v, Built floats cfg v true operand ((operand.term floats cfg true).run v))
    (hl : ∀ v, Built floats cfg v true lower ((lower.term floats cfg true).run v))
    (hu : ∀ v, Built floats cfg v true upper ((upper.term floats cfg true).run v)) :
    Built floats cfg v isFirst (.betweenExpr operand lower upper)
      (((Node.betweenExpr operand lower upper).term floats cfg isFirst).run v) := by
  simp only [Node.term, StateT.run_bind, run_write]
  refine build_bind (ho _) (fun hfalse => by simp [Built, Node.isReadable, hfalse])
    fun x v₁ hwo hdo => ?_
  refine build_bind (hl _) (fun hfalse => by simp [Built, Node.isReadable, hfalse])
    fun l v₂ hwl hdl => ?_
  refine build_bind (hu _) (fun hfalse => by simp [Built, Node.isReadable, hfalse])
    fun u v₃ hwu hdu => ?_
  refine ⟨?_, hdo.between hdl hdu⟩
  have hall := hwo.append ((writes_slot " BETWEEN " [.key .between] rfl v₁).append
    (hwl.append ((writes_slot " AND " [.key .and] rfl v₂).append hwu)))
  simpa [template, parenthesised, Term.symbols, lead] using hall

theorem built_inList {values : Node .tuple}
    (ho : ∀ v, Built floats cfg v true operand ((operand.term floats cfg true).run v))
    (hv : ∀ v, Built floats cfg v true values ((values.term floats cfg true).run v)) :
    Built floats cfg v isFirst (.inListExpr operand values)
      (((Node.inListExpr operand values).term floats cfg isFirst).run v) := by
  simp only [Node.term, StateT.run_bind, run_write]
  refine build_bind (ho _) (fun hfalse => by simp [Built, Node.isReadable, hfalse])
    fun x v₁ hwo hdo => ?_
  refine build_bind (hv _) (fun hfalse => by simp [Built, Node.isReadable, hfalse])
    fun vs v₂ hwv hdv => ?_
  refine ⟨?_, hdo.inList hdv⟩
  have hall := hwo.append ((writes_slot " IN (" [.key .isIn, .openParen] rfl v₁).append
    (hwv.append (writes_slot ")" [.closeParen] rfl v₂)))
  simpa [template, parenthesised, Term.symbols, lead] using hall

theorem built_exists {query : Expression} (h : query.createsTable = false) :
    Built floats cfg v isFirst (.existsExpr query)
      (((Node.existsExpr query).term floats cfg isFirst).run v) := by
  have hall := (writes_slot "EXISTS (" [.key .exist, .openParen] rfl v).append
    ((writes floats cfg _ (template query true)).append (writes_slot ")" [.closeParen] rfl _))
  exact ⟨hall, .existsQuery query (isBalanced_query h _)⟩

theorem writes_comma :
    Writes floats cfg v (optionalSlots (!isFirst) [slot ", "]) (lead .tuple isFirst)
      (fill cfg (optionalSlots (!isFirst) [slot ", "]) v) := by
  cases isFirst with
  | true => exact ⟨by simp [optionalSlots, writtenSymbols, written, lead], rfl⟩
  | false => exact writes_slot ", " [.comma] rfl v

theorem built_last {head : Expression}
    (h : ∀ v, Built floats cfg v true head ((head.term floats cfg true).run v)) :
    Built floats cfg v isFirst (.cons head .nil)
      (((Node.cons head .nil).term floats cfg isFirst).run v) := by
  simp only [Node.term, StateT.run_bind, run_write]
  refine build_bind (h _) id fun t v₁ hw hd => ?_
  refine ⟨?_, hd.last⟩
  have hall := (writes_comma v isFirst).append hw
  simpa [template, parenthesised, Term.symbols, lead] using hall

theorem built_cons {head second : Expression} {tail : Node .tuple}
    (h : ∀ v, Built floats cfg v true head ((head.term floats cfg true).run v))
    (hs : ∀ v, Built floats cfg v false (.cons second tail)
      (((Node.cons second tail).term floats cfg false).run v)) :
    Built floats cfg v isFirst (.cons head (.cons second tail))
      (((Node.cons head (.cons second tail)).term floats cfg isFirst).run v) := by
  rw [Node.term]
  simp only [StateT.run_bind, run_write]
  refine build_bind (h _) (fun hfalse => by simp [Built, Node.isReadable, hfalse])
    fun t v₁ hw hd => ?_
  refine build_bind (hs _) (fun hfalse => by simp [Built, Node.isReadable, hfalse])
    fun ts v₂ hws hds => ?_
  refine ⟨?_, hd.cons hds⟩
  have hall := (writes_comma v isFirst).append (hw.append hws)
  simpa [template, parenthesised, Term.symbols, lead] using hall

end

end

theorem built (floats : FloatFormat) (cfg : Setting) {k : Arity} (e : Node k)
    (h : e.isCondition = true) (v : Visitor) (isFirst : Bool) :
    Built floats cfg v isFirst e ((e.term floats cfg isFirst).run v) := by
  induction e generalizing v isFirst with
  | column col =>
    cases col with
    | column name table aliasName =>
      obtain rfl : aliasName = [] := by simpa [Node.isCondition] using h
      exact ⟨writes floats cfg v _, .atom (isAtom_column name table v) rfl rfl rfl⟩
    | allColumns table => cases h
  | literal type value aliasName =>
    obtain rfl : aliasName = [] := by simpa [Node.isCondition] using h
    exact ⟨writes floats cfg v _, .atom (isAtom_hole _ v) rfl rfl rfl⟩
  | nullLiteral =>
    have hatom : IsAtom (writtenSymbols floats cfg v [slot "NULL"]) := by
      rw [(writes_slot "NULL" [.key .null] rfl v).symbols]
      rfl
    exact ⟨writes floats cfg v _, .atom hatom rfl rfl rfl⟩
  | paramPlaceholder => exact ⟨writes floats cfg v _, .atom (isAtom_hole _ v) rfl rfl rfl⟩
  | binaryExpr op left right ihl ihr =>
    rw [Node.isCondition, Bool.and_eq_true] at h
    exact built_binary v isFirst op (fun v => ihl h.1 v true) fun v => ihr h.2 v true
  | unaryExpr op operand ih =>
    cases op with
    | not => exact built_not v isFirst fun v => ih h v true
    | isNull => exact built_isNull v isFirst fun v => ih h v true
    | isNotNull => exact built_isNotNull v isFirst fun v => ih h v true
  | betweenExpr operand lower upper iho ihl ihu =>
    rw [Node.isCondition, Bool.and_eq_true, Bool.and_eq_true] at h
    exact built_between v isFirst (fun v => iho h.1.1 v true) (fun v => ihl h.1.2 v true)
      fun v => ihu h.2 v true
  | inListExpr operand values iho ihv =>
    rw [Node.isCondition, Bool.and_eq_true] at h
    exact built_inList v isFirst (fun v => iho h.1 v true) fun v => ihv h.2 v true
  | existsExpr query ih => exact built_exists v isFirst (by simpa [Node.isCondition] using h)
  | nil => rfl
  | cons head tail ihh iht =>
    rw [Node.isCondition, Bool.and_eq_true] at h
    cases tail with
    | nil => exact built_last v isFirst fun v => ihh h.1 v true
    | cons second tail =>
      exact built_cons v isFirst (fun v => ihh h.1 v true) fun v => iht h.2 v false
  | _ => cases h

theorem Node.createsTable_of_isCondition {k : Arity} {e : Node k} (h : e.isCondition = true) :
    e.createsTable = false := by
  simp only [Node.createsTable]
  induction e with
  | binaryExpr op left right ihl ihr =>
    rw [Node.isCondition, Bool.and_eq_true] at h
    simp [Node.any, Node.isCreateTable, ihl h.1, ihr h.2]
  | unaryExpr op operand ih => simp [Node.any, Node.isCreateTable, ih h]
  | betweenExpr operand lower upper iho ihl ihu =>
    rw [Node.isCondition, Bool.and_eq_true, Bool.and_eq_true] at h
    simp [Node.any, Node.isCreateTable, iho h.1.1, ihl h.1.2, ihu h.2]
  | inListExpr operand values iho ihv =>
    rw [Node.isCondition, Bool.and_eq_true] at h
    simp [Node.any, Node.isCreateTable, iho h.1, ihv h.2]
  | existsExpr query ih =>
    simpa [Node.any, Node.isCreateTable, Node.isCondition, Node.createsTable] using h
  | cons head tail ihh iht =>
    rw [Node.isCondition, Bool.and_eq_true] at h
    simp [Node.any, ihh h.1, iht h.2]
  | column col => rfl
  | literal type value aliasName => rfl
  | nullLiteral => rfl
  | paramPlaceholder => rfl
  | nil => rfl
  | _ => cases h

/-- The tree that was built for a condition. -/
def Node.tree (floats : FloatFormat) (cfg : Setting) (e : Expression) : Option (Term .one) :=
  ((e.term floats cfg true).run .fresh).map Prod.fst

/-- The text of a condition is read as the tree that was built. -/
def ReadBack (floats : FloatFormat) (cfg : Setting) (e : Expression) : Prop :=
  ∃ t, e.tree floats cfg = some t ∧
    (parse ((lex (renderAll floats (compile cfg e).2.sql)).map symbol)).map Term.strip = some t

/-- A condition is read as it was built exactly if its operators are tight enough. -/
theorem read_back_iff (floats : FloatFormat) (cfg : Setting) (e : Expression)
    (h : e.isCondition = true) : ReadBack floats cfg e ↔ e.isReadable = true := by
  have hbuilt := built floats cfg e h .fresh true
  have htext : (lex (renderAll floats (compile cfg e).2.sql)).map symbol =
      writtenSymbols floats cfg .fresh (template e true) := by
    rw [lex_compile floats cfg (Node.createsTable_of_isCondition h), compile_sql]
    rfl
  rw [ReadBack, htext, Node.tree]
  cases hrun : (e.term floats cfg true).run .fresh with
  | none =>
    rw [hrun] at hbuilt
    have hreadable : e.isReadable = false := hbuilt
    simp [hreadable]
  | some p =>
    obtain ⟨t, v⟩ := p
    rw [hrun] at hbuilt
    obtain ⟨hwrites, hdescribes⟩ := hbuilt
    have hsymbols : writtenSymbols floats cfg .fresh (template e true) =
        (parenthesised t).symbols := hwrites.symbols
    have hstrip : (parenthesised t).strip = t := (strip_parenthesised t).trans hdescribes.strip
    have hparse := parse_strip_iff (parenthesised t)
    rw [hstrip] at hparse
    rw [hsymbols, ← hdescribes.fits, ← hparse]
    simp

/-- `"published" AND NOT "age" BETWEEN 18 AND 30`. -/
def publishedOutside : Expression :=
  .binaryExpr .and (.column (.column (ascii "published") [] []))
    (.unaryExpr .not (.betweenExpr (.column (.column (ascii "age") [] []))
      (.literal .other (.int32 18) []) (.literal .other (.int32 30) [])))

theorem read_back_not_between : ReadBack default ⟨.inline, .lvalue, id⟩ publishedOutside :=
  (read_back_iff default ⟨.inline, .lvalue, id⟩ publishedOutside (by decide)).mpr (by decide)

/-- `is_null(!active)`. -/
def nullOfNot : Expression :=
  .unaryExpr .isNull (.unaryExpr .not (.column (.column (ascii "active") [] [])))

/-- What is built as the NULL test of a negation is read as the negation of a NULL test. -/
theorem null_of_not_read_otherwise :
    renderAll default (compile ⟨.inline, .lvalue, id⟩ nullOfNot).2.sql =
      ascii "NOT \"active\" IS NULL" ∧
    nullOfNot.tree default ⟨.inline, .lvalue, id⟩ =
      some (.isNull false (.not (.atom [.name (.quoted false (ascii "active"))]))) ∧
    (parse ((lex (renderAll default
      (compile ⟨.inline, .lvalue, id⟩ nullOfNot).2.sql)).map symbol)).map Term.strip =
      some (.not (.isNull false (.atom [.name (.quoted false (ascii "active"))]))) ∧
    ¬ReadBack default ⟨.inline, .lvalue, id⟩ nullOfNot := by
  have htree : nullOfNot.tree default ⟨.inline, .lvalue, id⟩ =
      some (.isNull false (.not (.atom [.name (.quoted false (ascii "active"))]))) := by
    decide +kernel
  have hread : (parse ((lex (renderAll default
      (compile ⟨.inline, .lvalue, id⟩ nullOfNot).2.sql)).map symbol)).map Term.strip =
      some (.not (.isNull false (.atom [.name (.quoted false (ascii "active"))]))) := by
    decide +kernel
  refine ⟨by decide +kernel, htree, hread, ?_⟩
  rintro ⟨t, hbuilt, hparsed⟩
  rw [htree] at hbuilt
  rw [hread] at hparsed
  cases hbuilt
  cases hparsed

end Demiplane.Query

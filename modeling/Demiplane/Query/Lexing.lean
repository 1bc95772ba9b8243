import Demiplane.Query.Template

/-!
The texts of queries, lexed. Each piece of a text lexes to its own tokens, and two
neighbours do not run into one another: a piece that leaves a token open is followed by
one that begins with a separator. Which piece may follow which depends on their shapes
alone, so that a walk over the shapes of a template (`trail`) settles it for the texts
of all modes.
-/

namespace Demiplane.Query

open Text Sql Sql.Lexer

/-! ### Shapes -/

inductive Shape where
  | text (s : String)
  | name
  | token
  | raw
  deriving DecidableEq, Repr

def Piece.shape : Piece → Shape
  | .text s => .text s
  | .raw _ => .raw
  | .identifier _ => .name
  | .number _ => .token
  | .value _ => .token
  | .param _ _ => .token

def Slot.shape : Slot → Shape
  | .fixed p => p.piece.shape
  | .hole _ => .token

/-- What a piece leaves behind: nothing, a dot, a name in quotes, or another token that
a separator ends. -/
inductive Edge where
  | ready
  | dotted
  | named
  | closed
  deriving DecidableEq, Repr

def Edge.Holds : Edge → Mode → Prop
  | .ready, m => m = .start
  | .dotted, m => m = .point
  | .named, m => ∃ name, m = .quotedEnd false name
  | .closed, m => m.closed = true

def startsApart (s : String) : Bool := (ascii s).head?.any isSeparator

/-- Tokens of the fixed texts. -/
def isFixed : Token → Bool
  | .word _ | .operator _ | .punctuation _ => true
  | _ => false

def textEdge (s : String) : Option Edge :=
  if ascii s = [] ∨ (scan (ascii s)).all isFixed = false then none
  else if final (ascii s) = .start then some .ready
  else if final (ascii s) = .point then some .dotted
  else if (final (ascii s)).closed then some .closed
  else none

def Shape.edge : Shape → Option Edge
  | .text s => textEdge s
  | .name => some .named
  | .token => some .closed
  | .raw => none

def Shape.follows : Edge → Shape → Bool
  | .ready, _ => true
  | .dotted, .name => true
  | .dotted, .text s => s = "*"
  | .named, .text s => startsApart s || s = "."
  | .closed, .text s => startsApart s
  | _, _ => false

def trail (e : Edge) : List Shape → Option Edge
  | [] => some e
  | x :: xs => if x.follows e then x.edge.bind fun e' => trail e' xs else none

/-! ### One piece -/

def Piece.tokens (floats : FloatFormat) (p : Piece) : List Token := scan (p.render floats)

theorem closed_of_ofConstant {m : Mode} (h : ofConstant m = true) :
    m.closed = true ∧ Token.lineBreak ∉ pending m := by
  cases m with
  | word acc => exact ⟨rfl, by simp [pending]⟩
  | number acc => exact ⟨rfl, by simp [pending]⟩
  | stringEnd kind acc => exact ⟨rfl, by simp [pending]⟩
  | _ => cases h

theorem IsSigned.closed {t : Text} (h : IsSigned t) :
    t ≠ [] ∧ (final t).closed = true ∧ Token.lineBreak ∉ scan t := by
  obtain ⟨mode, hmode, hrun⟩ := h
  obtain ⟨hclosed, hpending⟩ := closed_of_ofConstant hmode
  refine ⟨?_, ?_, ?_⟩
  · rintro rfl
    rcases hrun with hrun | hrun
    · obtain rfl : Mode.start = mode := congrArg State.mode hrun
      cases hmode
    · exact absurd (congrArg State.out hrun) (by simp)
  · rcases hrun with hrun | hrun <;> simpa [final, hrun] using hclosed
  · rcases hrun with hrun | hrun <;> simpa [scan, hrun, State.flush] using hpending

theorem closed_placeholder (index : ℕ) :
    placeholder index ≠ [] ∧ (final (placeholder index)).closed = true ∧
      Token.lineBreak ∉ scan (placeholder index) := by
  refine ⟨by simp [placeholder], ?_, ?_⟩
  · simp [final, run_placeholder, Mode.closed]
  · simp [scan, run_placeholder, State.flush, pending]

theorem fixed_of_textEdge {s : String} {e : Edge} (h : textEdge s = some e) :
    ascii s ≠ [] ∧ ∀ t ∈ scan (ascii s), isFixed t = true := by
  have hnone : ¬(ascii s = [] ∨ (scan (ascii s)).all isFixed = false) := by
    intro hnone
    rw [textEdge, if_pos hnone] at h
    cases h
  rw [not_or, Bool.not_eq_false, List.all_eq_true] at hnone
  exact hnone

/-- A piece that has an edge lexes by itself, and leaves the lexer at that edge. -/
theorem Piece.lexes (floats : FloatFormat) {p : Piece} {e : Edge} (h : p.shape.edge = some e) :
    p.render floats ≠ [] ∧ e.Holds (final (p.render floats)) ∧
      Token.lineBreak ∉ p.tokens floats := by
  cases p with
  | text s =>
    have hfixed := fixed_of_textEdge h
    have hbreak : Token.lineBreak ∉ scan (ascii s) := fun hmem => by
      cases hfixed.2 _ hmem
    simp only [Piece.shape, Shape.edge, textEdge] at h
    split_ifs at h with hnone hstart hpoint hclosed
    · cases h
      exact ⟨hfixed.1, hstart, hbreak⟩
    · cases h
      exact ⟨hfixed.1, hpoint, hbreak⟩
    · cases h
      exact ⟨hfixed.1, hclosed, hbreak⟩
  | raw t => cases h
  | identifier name =>
    cases h
    refine ⟨by simp [Piece.render, quoteIdentifier], ⟨name, ?_⟩, ?_⟩
    · simp [final, Piece.render, run_quoteIdentifier]
    · simp [Piece.tokens, scan, Piece.render, run_quoteIdentifier, State.flush, pending]
  | number n =>
    cases h
    have hclosed := (isConstant_decimal n).signed.closed
    rwa [← Gears.constexprToString_eq] at hclosed
  | value v =>
    cases h
    exact (isSigned_formatValue floats v).closed
  | param index origin =>
    cases h
    exact closed_placeholder index

theorem quoteIdentifier_head (name : Text) : (quoteIdentifier name).head? = some doubleQuote := rfl

theorem Edge.closed_of_ne_dotted {e : Edge} (he : e ≠ .dotted) {m : Mode} (h : e.Holds m) :
    m.closed = true := by
  cases e with
  | ready =>
    obtain rfl : m = .start := h
    rfl
  | dotted => exact absurd rfl he
  | named =>
    obtain ⟨name, rfl⟩ := h
    rfl
  | closed => exact h

theorem breaks_of_startsApart {s : String} (hs : startsApart s = true) {m : Mode}
    (hm : m.closed = true) : Breaks m (ascii s) := by
  intro c hc
  rw [startsApart, hc] at hs
  exact next_separator hm hs

/-- A piece that may follow the edge ends the token before it. -/
theorem Piece.breaks (floats : FloatFormat) {p : Piece} {e : Edge} {m : Mode} (hm : e.Holds m)
    (hfollows : p.shape.follows e = true) : Breaks m (p.render floats) := by
  cases e with
  | ready =>
    obtain rfl : m = .start := hm
    exact breaks_start _
  | dotted =>
    obtain rfl : m = .point := hm
    cases p with
    | text s =>
      obtain rfl : s = "*" := by simpa [Piece.shape, Shape.follows] using hfollows
      intro c hc
      obtain rfl : star = c := Option.some.inj hc
      decide
    | identifier name =>
      intro c hc
      obtain rfl : doubleQuote = c := Option.some.inj ((quoteIdentifier_head name).symm.trans hc)
      decide
    | _ => cases hfollows
  | named =>
    cases p with
    | text s =>
      have hs : startsApart s = true ∨ s = "." := by
        simpa [Piece.shape, Shape.follows] using hfollows
      rcases hs with hs | rfl
      · exact breaks_of_startsApart hs (Edge.closed_of_ne_dotted (by decide) hm)
      · obtain ⟨name, rfl⟩ := hm
        intro c hc
        obtain rfl : point = c := Option.some.inj hc
        rfl
    | _ => cases hfollows
  | closed =>
    cases p with
    | text s => exact breaks_of_startsApart hfollows hm
    | _ => cases hfollows

/-! ### Sequences of pieces -/

theorem trail_append (e : Edge) (xs ys : List Shape) :
    trail e (xs ++ ys) = (trail e xs).bind fun e' => trail e' ys := by
  induction xs generalizing e with
  | nil => rfl
  | cons x xs ih =>
    simp only [List.cons_append, trail]
    split_ifs with hfollows
    · cases x.edge with
      | none => rfl
      | some e₁ => exact ih e₁
    · rfl

theorem trail_cons_isSome {e : Edge} {x : Shape} {xs : List Shape} :
    (trail e (x :: xs)).isSome = true ↔
      x.follows e = true ∧ ∃ e', x.edge = some e' ∧ (trail e' xs).isSome = true := by
  rw [trail]
  split_ifs with hfollows
  · simp [hfollows, Option.isSome_bind, Option.any_eq_true]
  · simp [hfollows]

/-- Anything may stand at the beginning. -/
theorem trail_ready {e : Edge} {xs : List Shape} (h : (trail e xs).isSome = true) :
    (trail .ready xs).isSome = true := by
  cases xs with
  | nil => rfl
  | cons x xs => exact trail_cons_isSome.mpr ⟨rfl, (trail_cons_isSome.mp h).2⟩

theorem renderAll_cons (floats : FloatFormat) (p : Piece) (ps : List Piece) :
    renderAll floats (p :: ps) = p.render floats ++ renderAll floats ps := rfl

theorem breaks_pieces (floats : FloatFormat) {ps : List Piece} {e : Edge} {m : Mode}
    (hm : e.Holds m) (h : (trail e (ps.map Piece.shape)).isSome = true) :
    Breaks m (renderAll floats ps) := by
  cases ps with
  | nil =>
    intro c hc
    cases hc
  | cons p ps =>
    obtain ⟨hfollows, e', hedge, -⟩ := trail_cons_isSome.mp h
    obtain ⟨d, t, htext⟩ := List.exists_cons_of_ne_nil (Piece.lexes floats hedge).1
    intro c hc
    rw [renderAll_cons, htext] at hc
    exact Piece.breaks floats hm hfollows c (by rw [htext]; exact hc)

/-- The lexer reads the pieces one by one. -/
theorem scan_pieces (floats : FloatFormat) {ps : List Piece}
    (h : (trail .ready (ps.map Piece.shape)).isSome = true) :
    scan (renderAll floats ps) = ps.flatMap (Piece.tokens floats) ∧
      Token.lineBreak ∉ ps.flatMap (Piece.tokens floats) := by
  induction ps with
  | nil => exact ⟨rfl, by simp⟩
  | cons p ps ih =>
    obtain ⟨-, e, hedge, hrest⟩ := trail_cons_isSome.mp h
    obtain ⟨-, hholds, hbreak⟩ := Piece.lexes floats hedge
    obtain ⟨hscan, hbreaks⟩ := ih (trail_ready hrest)
    constructor
    · rw [renderAll_cons, scan_append (breaks_pieces floats hholds hrest), hscan]
      rfl
    · rw [List.flatMap_cons, List.mem_append]
      exact not_or.mpr ⟨hbreak, hbreaks⟩

theorem lex_pieces (floats : FloatFormat) {ps : List Piece}
    (h : (trail .ready (ps.map Piece.shape)).isSome = true) :
    lex (renderAll floats ps) = ps.flatMap (Piece.tokens floats) := by
  obtain ⟨hscan, hbreak⟩ := scan_pieces floats h
  rw [lex_eq_scan (by rwa [hscan]), hscan]

/-! ### Templates -/

/-- The walk ends, and not behind a dot. -/
def Settled (o : Option Edge) : Prop := ∃ e, o = some e ∧ e ≠ .dotted

def shapes (slots : List Slot) : List Shape := slots.map Slot.shape

/-- The slots may stand at the beginning, or behind a space or a parenthesis. -/
def Opens (slots : List Slot) : Prop := Settled (trail .ready (shapes slots))

/-- The slots may stand behind any others that have come to an end. -/
def Continues (slots : List Slot) : Prop := ∀ e, e ≠ .dotted → Settled (trail e (shapes slots))

theorem continues_nil : Continues [] := fun e he => ⟨e, rfl, he⟩

theorem Continues.opens {slots : List Slot} (h : Continues slots) : Opens slots :=
  h .ready (by decide)

theorem Opens.append {slots more : List Slot} (h : Opens slots) (hmore : Continues more) :
    Opens (slots ++ more) := by
  obtain ⟨e, htrail, he⟩ := h
  rw [Opens, shapes, List.map_append, trail_append]
  rw [shapes] at htrail
  rw [htrail]
  exact hmore e he

theorem Continues.append {slots more : List Slot} (h : Continues slots) (hmore : Continues more) :
    Continues (slots ++ more) := by
  intro e he
  obtain ⟨e', htrail, he'⟩ := h e he
  rw [shapes, List.map_append, trail_append]
  rw [shapes] at htrail
  rw [htrail]
  exact hmore e' he'

section

variable {s : String} {slots : List Slot}

theorem follows_of_startsApart (hs : startsApart s = true) {e : Edge} (he : e ≠ .dotted) :
    (Shape.text s).follows e = true := by
  cases e with
  | ready => rfl
  | dotted => exact absurd rfl he
  | named => simp [Shape.follows, hs]
  | closed => exact hs

theorem trail_slot {e e' : Edge} (hfollows : (Shape.text s).follows e = true)
    (hedge : textEdge s = some e') :
    trail e (shapes (slot s :: slots)) = trail e' (shapes slots) := by
  change (if (Shape.text s).follows e then (textEdge s).bind fun e' => trail e' (shapes slots)
    else none) = _
  rw [if_pos hfollows, hedge]
  rfl

theorem opens_slot (hedge : textEdge s = some .ready) (h : Opens slots) :
    Opens (slot s :: slots) := by
  rw [Opens, trail_slot rfl hedge]
  exact h

theorem opens_word (hedge : textEdge s = some .closed) (h : Continues slots) :
    Opens (slot s :: slots) := by
  rw [Opens, trail_slot rfl hedge]
  exact h .closed (by decide)

theorem continues_slot (hs : startsApart s = true) (hedge : textEdge s = some .ready)
    (h : Opens slots) : Continues (slot s :: slots) := by
  intro e he
  rw [trail_slot (follows_of_startsApart hs he) hedge]
  exact h

theorem continues_word (hs : startsApart s = true) (hedge : textEdge s = some .closed)
    (h : Continues slots) : Continues (slot s :: slots) := by
  intro e he
  rw [trail_slot (follows_of_startsApart hs he) hedge]
  exact h .closed (by decide)

theorem opens_name (name : Text) (h : Continues slots) : Opens (nameSlot name :: slots) :=
  h .named (by decide)

theorem opens_hole (origin : Origin) (h : Continues slots) : Opens (.hole origin :: slots) :=
  h .closed (by decide)

theorem opens_number (n : ℕ) (h : Continues slots) : Opens (.fixed (.number n) :: slots) :=
  h .closed (by decide)

end

theorem opens_separated {α : Type} {slots : α → List Slot} (h : ∀ a, Opens (slots a))
    (as : List α) : Opens (separatedSlots slots as) := by
  induction as with
  | nil => exact continues_nil.opens
  | cons a as ih =>
    cases as with
    | nil => exact h a
    | cons b as => exact (h a).append (continues_slot (by decide) (by decide) ih)

theorem opens_tableName (tableName : Text) : Opens (tableNameSlots tableName) := by
  unfold tableNameSlots
  split_ifs
  · exact opens_name _ continues_nil
  · exact continues_nil.opens

theorem opens_table (table : Table) : Opens (tableSlots table) := by
  rcases table with (table | table) | tableName
  · cases table with
    | none => exact continues_nil.opens
    | some table => exact opens_name _ continues_nil
  · exact opens_tableName _
  · exact opens_tableName _

theorem continues_alias (aliasName : Text) : Continues (aliasSlots aliasName) := by
  unfold aliasSlots
  split_ifs
  · exact continues_slot (by decide) (by decide) (opens_name _ continues_nil)
  · exact continues_nil

theorem opens_column (col : ColumnLike) : Opens (columnSlots col) := by
  cases col with
  | column name table aliasName =>
    simp only [columnSlots, qualifierSlots]
    split_ifs
    · -- the name follows the dot behind the table
      exact continues_alias aliasName .named (by decide)
    · exact opens_name name (continues_alias aliasName)
  | allColumns table =>
    simp only [columnSlots, qualifierSlots]
    split_ifs
    · exact ⟨.closed, rfl, by decide⟩
    · exact opens_word (by decide) continues_nil

theorem opens_order (order : OrderBy) : Opens (orderSlots order) := by
  refine (opens_column _).append ?_
  cases order.direction <;> exact continues_word (by decide) (by decide) continues_nil

theorem opens_optional (present : Bool) {s : String} {slots : List Slot}
    (hedge : textEdge s = some .ready) (h : Opens slots) :
    Opens (optionalSlots present [slot s] ++ slots) := by
  cases present
  · exact h
  · exact opens_slot hedge h

theorem opens_argument (fn : Aggregate) (col : ColumnLike) : Opens (argumentSlots fn col) := by
  cases fn with
  | count distinct => cases col <;> exact opens_optional _ (by decide) (opens_column _)
  | _ => exact opens_column col

theorem opens_aggregate (fn : Aggregate) (col : ColumnLike) (aliasName : Text) :
    Opens (aggregateSlots fn col aliasName) := by
  have hedge : textEdge (aggregateText fn) = some .ready := by
    cases fn with
    | count distinct => exact (by decide : textEdge "COUNT(" = some .ready)
    | _ => decide
  exact opens_slot hedge ((opens_argument fn col).append
    (continues_slot (by decide) (by decide) (continues_alias aliasName).opens))

theorem opens_selectStart (distinct : Bool) {slots : List Slot} (h : Opens slots) :
    Opens (selectStartSlots distinct ++ slots) :=
  opens_slot (by decide) (opens_optional _ (by decide) h)

theorem continues_limit (limit offset : ℕ) : Continues (limitSlots limit offset) := by
  refine continues_slot (by decide) (by decide) (opens_number limit ?_)
  cases decide (0 < offset) with
  | false => exact continues_nil
  | true => exact continues_slot (by decide) (by decide) (opens_number offset continues_nil)

theorem opens_cteStart (recursive : Bool) (name : Text) {slots : List Slot} (h : Opens slots) :
    Opens (cteStartSlots recursive name ++ slots) := by
  rw [cteStartSlots, List.cons_append, List.cons_append, List.append_assoc]
  exact opens_slot (by decide)
    (opens_optional _ (by decide) (opens_name name (continues_slot (by decide) (by decide) h)))

theorem opens_dropTable (table : Table) (ifExists cascade : Bool) :
    Opens (dropTableSlots table ifExists cascade) := by
  have hcascade : Continues (optionalSlots cascade [slot " CASCADE"]) := by
    cases cascade
    · exact continues_nil
    · exact continues_word (by decide) (by decide) continues_nil
  rw [dropTableSlots, List.cons_append, List.cons_append, List.append_assoc]
  exact opens_slot (by decide)
    (opens_optional _ (by decide) ((opens_table table).append hcascade))

theorem opens_stored (value : FieldValue) : Opens (storedSlots value) :=
  opens_hole _ continues_nil

theorem opens_insert (table : Table) (columns : List Text) (rows : List (List FieldValue)) :
    Opens (insertSlots table columns rows) := by
  have hcolumns : Opens (separatedSlots (fun name => [nameSlot name]) columns) :=
    opens_separated (fun name => opens_name name continues_nil) columns
  have hrows : Opens (separatedSlots rowSlots rows) :=
    opens_separated (fun row => opens_slot (by decide) ((opens_separated opens_stored row).append
      (continues_slot (by decide) (by decide) continues_nil.opens))) rows
  rw [insertSlots, List.append_assoc]
  exact opens_slot (by decide) ((opens_table table).append
    (continues_slot (by decide) (by decide)
      (hcolumns.append (continues_slot (by decide) (by decide) hrows))))

theorem opens_update (table : Table) (assignments : List (Text × FieldValue)) :
    Opens (updateSlots table assignments) := by
  have hassignment : ∀ assignment, Opens (assignmentSlots assignment) := fun assignment =>
    opens_name assignment.1 (continues_slot (by decide) (by decide) (opens_stored assignment.2))
  have hassignments := opens_separated hassignment assignments
  exact opens_slot (by decide)
    ((opens_table table).append (continues_slot (by decide) (by decide) hassignments))

theorem opens_delete (table : Table) : Opens (deleteSlots table) :=
  opens_slot (by decide) (opens_table table)

/-- Where what is written for a node of the arity may stand. -/
def Walks : Arity → (isFirst : Bool) → List Slot → Prop
  | .expression, _ => Opens
  | .tuple, true => Opens
  | .tuple, false => Continues
  | .whenClauses, _ => Continues

theorem edge_binaryOpText (op : BinaryOp) :
    startsApart (binaryOpText op) = true ∧ textEdge (binaryOpText op) = some .ready := by
  cases op <;> decide

theorem edge_joinText (type : JoinType) :
    startsApart (joinText type) = true ∧ textEdge (joinText type) = some .ready := by
  cases type <;> decide

theorem edge_setOpText (op : SetOperation) :
    startsApart (setOpText op) = true ∧ textEdge (setOpText op) = some .ready := by
  cases op <;> decide

theorem continues_close {s : String} (hs : startsApart s = true)
    (hedge : textEdge s = some .ready) : Continues [slot s] :=
  continues_slot hs hedge continues_nil.opens

theorem walks_template {k : Arity} (e : Node k) (isFirst : Bool) (h : e.createsTable = false) :
    Walks k isFirst (template e isFirst) := by
  induction e generalizing isFirst with
    try simp only [Node.createsTable, Node.any, Bool.or_eq_false_iff] at h
  | column col => exact opens_column col
  | literal type value aliasName => exact opens_hole _ (continues_alias aliasName)
  | nullLiteral => exact opens_word (by decide) continues_nil
  | paramPlaceholder => exact opens_hole _ continues_nil
  | binaryExpr op left right ihl ihr =>
    obtain ⟨hs, hedge⟩ := edge_binaryOpText op
    rw [template, List.append_assoc]
    exact opens_slot (by decide) ((ihl true h.1.2).append (continues_slot hs hedge
      (Opens.append (ihr true h.2) (continues_close (by decide) (by decide)))))
  | unaryExpr op operand ih =>
    cases op with
    | not => exact opens_slot (by decide) (ih true h.2)
    | isNull => exact (ih true h.2).append (continues_word (by decide) (by decide) continues_nil)
    | isNotNull =>
      exact (ih true h.2).append (continues_word (by decide) (by decide) continues_nil)
  | betweenExpr operand lower upper iho ihl ihu =>
    rw [template, List.append_assoc]
    exact (iho true h.1.1.2).append (continues_slot (by decide) (by decide)
      ((ihl true h.1.2).append (continues_slot (by decide) (by decide) (ihu true h.2))))
  | inListExpr operand values iho ihv =>
    rw [template, List.append_assoc]
    exact (iho true h.1.2).append (continues_slot (by decide) (by decide)
      ((ihv true h.2).append (continues_close (by decide) (by decide))))
  | subquery query aliasName ih =>
    exact opens_slot (by decide) ((ih true h.2).append
      (continues_slot (by decide) (by decide) (continues_alias aliasName).opens))
  | existsExpr query ih =>
    exact opens_slot (by decide)
      ((ih true h.2).append (continues_close (by decide) (by decide)))
  | aggregateExpr fn col aliasName => exact opens_aggregate fn col aliasName
  | selectExpr distinct columns ih =>
    exact opens_selectStart distinct (ih true h.2)
  | fromTableExpr select table aliasName ih =>
    rw [template, List.append_assoc]
    exact (ih true h.2).append (continues_slot (by decide) (by decide)
      ((opens_table table).append (continues_alias aliasName)))
  | fromCteExpr select name query recursive ihs ihq =>
    rw [template, List.append_assoc, List.append_assoc]
    exact opens_cteStart recursive name ((ihq true h.2).append
      (continues_slot (by decide) (by decide) (opens_slot (by decide) ((ihs true h.1.2).append
        (continues_slot (by decide) (by decide) (opens_tableName name))))))
  | whereExpr _ _ ihq ihc | groupByQueryExpr _ _ ihq ihc | havingExpr _ _ ihq ihc =>
    exact (ihq true h.1.2).append (continues_slot (by decide) (by decide) (ihc true h.2))
  | groupByColumnExpr query columns ih =>
    exact (ih true h.2).append
      (continues_slot (by decide) (by decide) (opens_separated opens_column columns))
  | orderByExpr query orders ih =>
    exact (ih true h.2).append
      (continues_slot (by decide) (by decide) (opens_separated opens_order orders))
  | limitExpr query count offset ih =>
    exact (ih true h.2).append (continues_limit count offset)
  | joinExpr query onCondition table type aliasName ihq ihc =>
    obtain ⟨hs, hedge⟩ := edge_joinText type
    rw [template, List.append_assoc, List.append_assoc]
    exact (ihq true h.1.2).append (continues_slot hs hedge ((opens_table table).append
      ((continues_alias aliasName).append (continues_slot (by decide) (by decide)
        (ihc true h.2)))))
  | insertExpr table columns rows => exact opens_insert table columns rows
  | updateExpr table assignments => exact opens_update table assignments
  | updateWhereExpr table assignments condition ih =>
    exact (opens_update table assignments).append
      (continues_slot (by decide) (by decide) (ih true h.2))
  | deleteExpr table => exact opens_delete table
  | deleteWhereExpr table condition ih =>
    exact (opens_delete table).append (continues_slot (by decide) (by decide) (ih true h.2))
  | setOpExpr left right op ihl ihr =>
    obtain ⟨hs, hedge⟩ := edge_setOpText op
    exact (ihl true h.1.2).append (continues_slot hs hedge (ihr true h.2))
  | caseExpr whens aliasName ih =>
    exact opens_word (by decide) (Continues.append (ih true h.2)
      (continues_word (by decide) (by decide) (continues_alias aliasName)))
  | caseExprWithElse whens otherwise aliasName ihw ihe =>
    rw [template, List.append_assoc]
    exact opens_word (by decide) (Continues.append (ihw true h.1.2)
      (continues_slot (by decide) (by decide) (Opens.append (ihe true h.2)
        (continues_word (by decide) (by decide) (continues_alias aliasName)))))
  | cteExpr name query recursive ih =>
    rw [template, List.append_assoc]
    exact opens_cteStart recursive name ((ih true h.2).append (continues_slot (by decide)
      (by decide) (opens_slot (by decide) continues_nil.opens)))
  | createTableExpr table ifNotExists => cases h
  | dropTableExpr table ifExists cascade => exact opens_dropTable table ifExists cascade
  | nil =>
    cases isFirst
    · exact continues_nil
    · exact continues_nil.opens
  | cons head tail ihh iht =>
    have hrest : Opens (template head true ++ template tail false) :=
      Opens.append (ihh true h.1) (iht false h.2)
    cases isFirst
    · exact continues_slot (by decide) (by decide) hrest
    · exact hrest
  | noWhen => exact continues_nil
  | when condition value rest ihc ihv ihr =>
    rw [template, List.append_assoc]
    exact continues_slot (by decide) (by decide) (Opens.append (ihc true h.1.1)
      (continues_slot (by decide) (by decide) (Opens.append (ihv true h.1.2) (ihr true h.2))))

/-! ### Texts -/

theorem fillOne_shape (cfg : Setting) (s : Slot) (v : Visitor) :
    (((fillOne cfg s).run v).2.sql).map Piece.shape = v.sql.map Piece.shape ++ [s.shape] := by
  obtain ⟨mode, category, residue⟩ := cfg
  rcases s with p | (value | value | _)
  · exact List.map_append
  · cases mode <;> exact List.map_append
  · cases mode <;> exact List.map_append
  · exact List.map_append

theorem fill_shapes (cfg : Setting) (slots : List Slot) (v : Visitor) :
    (fill cfg slots v).sql.map Piece.shape = v.sql.map Piece.shape ++ shapes slots := by
  induction slots generalizing v with
  | nil => simp [shapes]
  | cons s slots ih => simp [ih, fillOne_shape, shapes]

theorem written_shapes (cfg : Setting) (v : Visitor) (slots : List Slot) :
    (written cfg v slots).map Piece.shape = shapes slots := by
  have h := fill_shapes cfg slots v
  rwa [fill_sql, List.map_append, List.append_cancel_left_eq] at h

theorem trail_compile (cfg : Setting) {e : Expression} (h : e.createsTable = false) :
    (trail .ready ((compile cfg e).2.sql.map Piece.shape)).isSome = true := by
  obtain ⟨edge, htrail, -⟩ : Settled (trail .ready (shapes (template e true))) :=
    walks_template e true h
  rw [compile_sql, written_shapes]
  exact Option.isSome_of_mem htrail

/-- The tokens of a query without CREATE TABLE are those of its pieces. -/
theorem lex_compile (floats : FloatFormat) (cfg : Setting) {e : Expression}
    (h : e.createsTable = false) :
    lex (renderAll floats (compile cfg e).2.sql) =
      (compile cfg e).2.sql.flatMap (Piece.tokens floats) :=
  lex_pieces floats (trail_compile cfg h)

end Demiplane.Query

import Demiplane.Query.Lexing

/-!
Inlined values and names cannot get out of their quotes: two queries that differ only in
what stands between quotes are read as the same tokens, apart from the text between the
quotes.
-/

namespace Demiplane.Query

open Text Sql Sql.Lexer

/-! ### Trees without the contents of their quotes -/

/-- An empty name is a name that is not there. -/
def eraseName (name : Text) : Text := if name = [] then [] else ascii "x"

theorem eraseName_eq_nil {name : Text} : eraseName name = [] ↔ name = [] := by
  unfold eraseName
  split_ifs with h
  · exact ⟨fun _ => h, fun _ => rfl⟩
  · exact ⟨fun hx => absurd hx (by decide), fun hname => absurd hname h⟩

def ColumnLike.erase : ColumnLike → ColumnLike
  | .column name table aliasName =>
      .column (eraseName name) (eraseName table) (eraseName aliasName)
  | .allColumns table => .allColumns (eraseName table)

def OrderBy.erase (order : OrderBy) : OrderBy := ⟨order.column.erase, order.direction⟩

/-- The fields are read by CREATE TABLE alone. -/
def Table.erase : Table → Table
  | .schema (.dynamic none) => .schema (.dynamic none)
  | .schema (.dynamic (some table)) => .schema (.dynamic (some ⟨eraseName table.tableName, []⟩))
  | .schema (.static table) => .schema (.static ⟨eraseName table.tableName, []⟩)
  | .name tableName => .name (eraseName tableName)

def FieldValue.erase : FieldValue → FieldValue
  | .char _ => .char 120
  | .string _ => .string []
  | .stringView _ => .stringView []
  | .bytes _ => .bytes []
  | .byteSpan _ => .byteSpan []
  | value => value

def Node.erase : {k : Arity} → Node k → Node k
  | _, .column col => .column col.erase
  | _, .literal type value aliasName => .literal type value.erase (eraseName aliasName)
  | _, .nullLiteral => .nullLiteral
  | _, .paramPlaceholder => .paramPlaceholder
  | _, .binaryExpr op left right => .binaryExpr op left.erase right.erase
  | _, .unaryExpr op operand => .unaryExpr op operand.erase
  | _, .betweenExpr operand lower upper => .betweenExpr operand.erase lower.erase upper.erase
  | _, .inListExpr operand values => .inListExpr operand.erase values.erase
  | _, .subquery query aliasName => .subquery query.erase (eraseName aliasName)
  | _, .existsExpr query => .existsExpr query.erase
  | _, .aggregateExpr fn col aliasName => .aggregateExpr fn col.erase (eraseName aliasName)
  | _, .selectExpr distinct columns => .selectExpr distinct columns.erase
  | _, .fromTableExpr select table aliasName =>
      .fromTableExpr select.erase table.erase (eraseName aliasName)
  | _, .fromCteExpr select name query recursive =>
      .fromCteExpr select.erase (eraseName name) query.erase recursive
  | _, .whereExpr query condition => .whereExpr query.erase condition.erase
  | _, .groupByColumnExpr query columns =>
      .groupByColumnExpr query.erase (columns.map ColumnLike.erase)
  | _, .groupByQueryExpr query criteria => .groupByQueryExpr query.erase criteria.erase
  | _, .havingExpr query condition => .havingExpr query.erase condition.erase
  | _, .orderByExpr query orders => .orderByExpr query.erase (orders.map OrderBy.erase)
  | _, .limitExpr query count offset => .limitExpr query.erase count offset
  | _, .joinExpr query onCondition table type aliasName =>
      .joinExpr query.erase onCondition.erase table.erase type (eraseName aliasName)
  | _, .insertExpr table columns rows =>
      .insertExpr table.erase (columns.map eraseName) (rows.map fun row => row.map FieldValue.erase)
  | _, .updateExpr table assignments =>
      .updateExpr table.erase (assignments.map fun a => (eraseName a.1, a.2.erase))
  | _, .updateWhereExpr table assignments condition =>
      .updateWhereExpr table.erase (assignments.map fun a => (eraseName a.1, a.2.erase))
        condition.erase
  | _, .deleteExpr table => .deleteExpr table.erase
  | _, .deleteWhereExpr table condition => .deleteWhereExpr table.erase condition.erase
  | _, .setOpExpr left right op => .setOpExpr left.erase right.erase op
  | _, .caseExpr whens aliasName => .caseExpr whens.erase (eraseName aliasName)
  | _, .caseExprWithElse whens otherwise aliasName =>
      .caseExprWithElse whens.erase otherwise.erase (eraseName aliasName)
  | _, .cteExpr name query recursive => .cteExpr (eraseName name) query.erase recursive
  | _, .createTableExpr table ifNotExists => .createTableExpr table ifNotExists
  | _, .dropTableExpr table ifExists cascade => .dropTableExpr table.erase ifExists cascade
  | _, .nil => .nil
  | _, .cons head tail => .cons head.erase tail.erase
  | _, .noWhen => .noWhen
  | _, .when condition value rest => .when condition.erase value.erase rest.erase

/-- The trees differ at most in the contents of names that are not empty, and of strings,
characters and byte strings. -/
def SameShape (a b : Expression) : Prop := a.erase = b.erase

/-! ### Erased templates -/

def Fixed.erase : Fixed → Fixed
  | .identifier name => .identifier (eraseName name)
  | p => p

def Origin.erase : Origin → Origin
  | .literal value => .literal value.erase
  | .stored value => .stored value.erase
  | .placeholder => .placeholder

def Slot.erase : Slot → Slot
  | .fixed p => .fixed p.erase
  | .hole origin => .hole origin.erase

def eraseSlots (slots : List Slot) : List Slot := slots.map Slot.erase

@[simp] theorem eraseSlots_nil : eraseSlots [] = [] := rfl

@[simp] theorem eraseSlots_append (slots more : List Slot) :
    eraseSlots (slots ++ more) = eraseSlots slots ++ eraseSlots more :=
  List.map_append

@[simp] theorem eraseSlots_slot (s : String) (slots : List Slot) :
    eraseSlots (slot s :: slots) = slot s :: eraseSlots slots := rfl

@[simp] theorem eraseSlots_name (name : Text) (slots : List Slot) :
    eraseSlots (nameSlot name :: slots) = nameSlot (eraseName name) :: eraseSlots slots := rfl

@[simp] theorem eraseSlots_number (n : ℕ) (slots : List Slot) :
    eraseSlots (.fixed (.number n) :: slots) = .fixed (.number n) :: eraseSlots slots := rfl

@[simp] theorem eraseSlots_hole (origin : Origin) (slots : List Slot) :
    eraseSlots (.hole origin :: slots) = .hole origin.erase :: eraseSlots slots := rfl

@[simp] theorem eraseSlots_optional (present : Bool) (slots : List Slot) :
    eraseSlots (optionalSlots present slots) = optionalSlots present (eraseSlots slots) := by
  cases present <;> rfl

theorem eraseSlots_separated {α : Type} (slots : α → List Slot) (f : α → α)
    (h : ∀ a, slots (f a) = eraseSlots (slots a)) (as : List α) :
    separatedSlots slots (as.map f) = eraseSlots (separatedSlots slots as) := by
  induction as with
  | nil => rfl
  | cons a as ih =>
    cases as with
    | nil => exact h a
    | cons b as =>
      simp only [List.map_cons, separatedSlots, eraseSlots_append, eraseSlots_slot, h] at ih ⊢
      rw [ih]

@[simp] theorem tableNameSlots_erase (tableName : Text) :
    tableNameSlots (eraseName tableName) = eraseSlots (tableNameSlots tableName) := by
  simp only [tableNameSlots, ne_eq, eraseName_eq_nil]
  split_ifs <;> rfl

@[simp] theorem tableSlots_erase (table : Table) :
    tableSlots table.erase = eraseSlots (tableSlots table) := by
  rcases table with (table | table) | tableName
  · cases table <;> rfl
  · exact tableNameSlots_erase _
  · exact tableNameSlots_erase _

@[simp] theorem aliasSlots_erase (aliasName : Text) :
    aliasSlots (eraseName aliasName) = eraseSlots (aliasSlots aliasName) := by
  simp only [aliasSlots, ne_eq, eraseName_eq_nil]
  split_ifs <;> rfl

@[simp] theorem columnSlots_erase (col : ColumnLike) :
    columnSlots col.erase = eraseSlots (columnSlots col) := by
  cases col <;>
    simp only [ColumnLike.erase, columnSlots, qualifierSlots, ne_eq, eraseName_eq_nil] <;>
    split_ifs <;> simp

@[simp] theorem orderSlots_erase (order : OrderBy) :
    orderSlots order.erase = eraseSlots (orderSlots order) := by
  simp [orderSlots, OrderBy.erase]

@[simp] theorem aggregateSlots_erase (fn : Aggregate) (col : ColumnLike) (aliasName : Text) :
    aggregateSlots fn col.erase (eraseName aliasName) =
      eraseSlots (aggregateSlots fn col aliasName) := by
  have hargument : argumentSlots fn col.erase = eraseSlots (argumentSlots fn col) := by
    cases fn with
    | count distinct =>
      cases col with
      | column name table aliasName =>
        exact (congrArg _ (columnSlots_erase (.column name table aliasName))).trans (by
          simp [argumentSlots])
      | allColumns table => cases distinct <;> rfl
    | _ => exact columnSlots_erase col
  simp [aggregateSlots, hargument]

@[simp] theorem dropTableSlots_erase (table : Table) (ifExists cascade : Bool) :
    dropTableSlots table.erase ifExists cascade =
      eraseSlots (dropTableSlots table ifExists cascade) := by
  simp [dropTableSlots]

@[simp] theorem insertSlots_erase (table : Table) (columns : List Text)
    (rows : List (List FieldValue)) :
    insertSlots table.erase (columns.map eraseName)
        (rows.map fun row => row.map FieldValue.erase) =
      eraseSlots (insertSlots table columns rows) := by
  have hcolumns := eraseSlots_separated (fun name => [nameSlot name]) eraseName (fun _ => rfl)
    columns
  have hrow : ∀ row : List FieldValue,
      rowSlots (row.map FieldValue.erase) = eraseSlots (rowSlots row) := by
    intro row
    simp [rowSlots, eraseSlots_separated storedSlots FieldValue.erase (fun _ => rfl) row]
  simp [insertSlots, hcolumns, eraseSlots_separated rowSlots _ hrow]

@[simp] theorem updateSlots_erase (table : Table) (assignments : List (Text × FieldValue)) :
    updateSlots table.erase (assignments.map fun a => (eraseName a.1, a.2.erase)) =
      eraseSlots (updateSlots table assignments) := by
  have hassignments := eraseSlots_separated assignmentSlots
    (fun a => (eraseName a.1, a.2.erase)) (fun _ => rfl) assignments
  simp [updateSlots, hassignments]

/-- What is written for an erased tree is what is written for the tree, erased. -/
theorem template_erase {k : Arity} (e : Node k) (isFirst : Bool) (h : e.createsTable = false) :
    template e.erase isFirst = eraseSlots (template e isFirst) := by
  simp only [Node.createsTable] at h
  induction e generalizing isFirst with
  | createTableExpr table ifNotExists => cases h
  | unaryExpr op operand ih =>
    simp only [Node.any, Bool.or_eq_false_iff] at h
    simp only [template, Node.erase]
    split_ifs <;> simp [ih true h.2]
  | groupByColumnExpr query columns ih =>
    simp only [Node.any, Bool.or_eq_false_iff] at h
    simp [template, Node.erase, ih true h.2,
      eraseSlots_separated columnSlots _ columnSlots_erase columns]
  | orderByExpr query orders ih =>
    simp only [Node.any, Bool.or_eq_false_iff] at h
    simp [template, Node.erase, ih true h.2,
      eraseSlots_separated orderSlots _ orderSlots_erase orders]
  | _ =>
    simp_all only [Node.any, Bool.or_eq_false_iff, forall_const]
    simp [template, Node.erase, selectStartSlots, limitSlots, cteStartSlots, deleteSlots,
      Origin.erase, *]

/-! ### Erased texts -/

def Piece.erase : Piece → Piece
  | .identifier name => .identifier (eraseName name)
  | .value v => .value v.erase
  | .param index origin => .param index origin.erase
  | p => p

theorem Fixed.piece_erase (p : Fixed) : p.erase.piece = p.piece.erase := by
  cases p <;> rfl

section

variable (category : ValueCategory) (residue : FieldValue → FieldValue)

theorem fillOne_erase (s : Slot) {v w : Visitor} (hsql : w.sql = v.sql.map Piece.erase)
    (hcount : w.paramCount = v.paramCount) :
    ((fillOne ⟨.inline, category, residue⟩ s.erase).run w).2.sql =
        ((fillOne ⟨.inline, category, residue⟩ s).run v).2.sql.map Piece.erase ∧
      ((fillOne ⟨.inline, category, residue⟩ s.erase).run w).2.paramCount =
        ((fillOne ⟨.inline, category, residue⟩ s).run v).2.paramCount := by
  have happend : ∀ p : Piece, w.sql ++ [p.erase] = (v.sql ++ [p]).map Piece.erase := by
    intro p
    rw [hsql, List.map_append, List.map_singleton]
  rcases s with p | (value | value | _)
  · refine ⟨?_, hcount⟩
    exact (congrArg (fun q => w.sql ++ [q]) (Fixed.piece_erase p)).trans (happend p.piece)
  · exact ⟨happend (.value value), hcount⟩
  · exact ⟨happend (.value value), hcount⟩
  · refine ⟨?_, congrArg (· + 1) hcount⟩
    exact (congrArg (fun n => w.sql ++ [.param (n + 1) .placeholder]) hcount).trans
      (happend (.param (v.paramCount + 1) .placeholder))

theorem fill_erase (slots : List Slot) {v w : Visitor} (hsql : w.sql = v.sql.map Piece.erase)
    (hcount : w.paramCount = v.paramCount) :
    (fill ⟨.inline, category, residue⟩ (eraseSlots slots) w).sql =
      (fill ⟨.inline, category, residue⟩ slots v).sql.map Piece.erase := by
  induction slots generalizing v w with
  | nil => exact hsql
  | cons s slots ih =>
    have hone := fillOne_erase category residue s hsql hcount
    exact ih hone.1 hone.2

theorem compile_erase {e : Expression} (h : e.createsTable = false) :
    (compile ⟨.inline, category, residue⟩ e.erase).2.sql =
      (compile ⟨.inline, category, residue⟩ e).2.sql.map Piece.erase := by
  rw [compile_eq, compile_eq, visit_eq, visit_eq, template_erase e true h]
  exact fill_erase category residue _ rfl rfl

end

theorem mask_formatValue (floats : FloatFormat) (value : FieldValue) :
    (scan (formatValue floats value.erase)).map Token.mask =
      (scan (formatValue floats value)).map Token.mask := by
  have hcharacters : ∀ {v : FieldValue} {str : Text}, v.characters = some str →
      (scan (formatValue floats v)).map Token.mask = [.string .plain []] := by
    intro v str h
    rw [scan, run_formatValue_characters floats h]
    rfl
  have hbytes : ∀ data : List UInt8,
      (scan (formatBinaryData data)).map Token.mask = [.string .plain []] := by
    intro data
    obtain ⟨str, hrun⟩ := run_formatBinaryData data
    rw [scan, hrun]
    rfl
  cases value with
  | char val => exact (hcharacters rfl).trans (hcharacters rfl).symm
  | string val => exact (hcharacters rfl).trans (hcharacters rfl).symm
  | stringView val => exact (hcharacters rfl).trans (hcharacters rfl).symm
  | bytes val => exact (hbytes []).trans (hbytes val).symm
  | byteSpan val => exact (hbytes []).trans (hbytes val).symm
  | _ => rfl

theorem Piece.mask_tokens (floats : FloatFormat) (p : Piece) :
    (p.erase.tokens floats).map Token.mask = (p.tokens floats).map Token.mask := by
  cases p with
  | identifier name =>
    simp only [Piece.erase, Piece.tokens, Piece.render, scan, run_quoteIdentifier]
    rfl
  | value v => exact mask_formatValue floats v
  | _ => rfl

theorem mask_pieces (floats : FloatFormat) (ps : List Piece) :
    ((ps.map Piece.erase).flatMap (Piece.tokens floats)).map Token.mask =
      (ps.flatMap (Piece.tokens floats)).map Token.mask := by
  induction ps with
  | nil => rfl
  | cons p ps ih =>
    rw [List.map_cons, List.flatMap_cons, List.flatMap_cons, List.map_append, List.map_append, ih,
      Piece.mask_tokens]

/-- In Inline mode the server reads the same tokens for two queries of the same shape, up
to what stands between quotes. -/
theorem injection_safe (floats : FloatFormat) (category : ValueCategory)
    (residue : FieldValue → FieldValue) (a b : Expression) (hshape : SameShape a b)
    (ha : a.createsTable = false) (hb : b.createsTable = false) :
    (lex (renderAll floats (compile ⟨.inline, category, residue⟩ a).2.sql)).map Token.mask =
      (lex (renderAll floats (compile ⟨.inline, category, residue⟩ b).2.sql)).map Token.mask := by
  have hmask : ∀ e : Expression, e.createsTable = false →
      (lex (renderAll floats (compile ⟨.inline, category, residue⟩ e).2.sql)).map Token.mask =
        ((compile ⟨.inline, category, residue⟩ e.erase).2.sql.flatMap
          (Piece.tokens floats)).map Token.mask := by
    intro e he
    rw [lex_compile floats _ he, compile_erase category residue he, mask_pieces]
  rw [hmask a ha, hmask b hb, hshape]

/-- `SELECT "id" FROM "users" WHERE ("name" = 'name')`. -/
def usersNamed (name : String) : Expression :=
  .whereExpr (.fromTableExpr (.selectExpr false (.cons (.column (.column (ascii "id") [] [])) .nil))
      (.name (ascii "users")) [])
    (.binaryExpr .equal (.column (.column (ascii "name") [] []))
      (.literal .other (.string (ascii name)) []))

theorem injection_safe_quote :
    SameShape (usersNamed "bob") (usersNamed "' OR '1'='1") ∧
    (lex (renderAll default (compile ⟨.inline, .lvalue, id⟩ (usersNamed "bob")).2.sql)).map
        Token.mask =
      (lex (renderAll default
        (compile ⟨.inline, .lvalue, id⟩ (usersNamed "' OR '1'='1")).2.sql)).map Token.mask :=
  ⟨rfl, injection_safe default .lvalue id (usersNamed "bob") (usersNamed "' OR '1'='1") rfl
    (by decide) (by decide)⟩

end Demiplane.Query

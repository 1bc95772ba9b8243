import Demiplane.Query.Visitor

/-!
What the visitor writes for a tree, apart from the numbers of the parameters: a sequence
of pieces with holes for the values and the placeholders (`template`). The visitor fills
the holes from left to right (`visit_eq`), so that what holds of the texts of a query in
any mode is shown for the template and for one hole at a time.
-/

namespace Demiplane.Query

/-- The pieces that are the same in all modes. -/
inductive Fixed where
  | text (s : String)
  | raw (t : Text)
  | identifier (name : Text)
  | number (n : ℕ)
  deriving DecidableEq, Repr

def Fixed.piece : Fixed → Piece
  | .text s => .text s
  | .raw t => .raw t
  | .identifier name => .identifier name
  | .number n => .number n

inductive Slot where
  | fixed (p : Fixed)
  | hole (origin : Origin)
  deriving DecidableEq, Repr

/-! ### Templates -/

def slot (s : String) : Slot := .fixed (.text s)

def nameSlot (name : Text) : Slot := .fixed (.identifier name)

def separatedSlots {α : Type} (slots : α → List Slot) : List α → List Slot
  | [] => []
  | [a] => slots a
  | a :: b :: rest => slots a ++ slot ", " :: separatedSlots slots (b :: rest)

def tableNameSlots (tableName : Text) : List Slot :=
  if tableName ≠ [] then [nameSlot tableName] else []

def tableSlots : Table → List Slot
  | .schema (.dynamic none) => []
  | .schema (.dynamic (some table)) => [nameSlot table.tableName]
  | .schema (.static table) => tableNameSlots table.tableName
  | .name tableName => tableNameSlots tableName

def aliasSlots (aliasName : Text) : List Slot :=
  if aliasName ≠ [] then [slot " AS ", nameSlot aliasName] else []

/-- The table in front of a column, with the dot behind it. -/
def qualifierSlots (table : Text) : List Slot :=
  if table ≠ [] then [nameSlot table, slot "."] else []

def columnSlots : ColumnLike → List Slot
  | .column name table aliasName => qualifierSlots table ++ nameSlot name :: aliasSlots aliasName
  | .allColumns table => qualifierSlots table ++ [slot "*"]

def directionText : OrderDirection → String
  | .asc => " ASC"
  | .desc => " DESC"

def orderSlots (order : OrderBy) : List Slot :=
  columnSlots order.column ++ [slot (directionText order.direction)]

def optionalSlots (present : Bool) (slots : List Slot) : List Slot := if present then slots else []

def aggregateText : Aggregate → String
  | .count _ => "COUNT("
  | .sum => "SUM("
  | .avg => "AVG("
  | .max => "MAX("
  | .min => "MIN("

/-- `COUNT` alone has a flag, and alone leaves the table of an `AllColumns` out. -/
def argumentSlots : Aggregate → ColumnLike → List Slot
  | .count distinct, .allColumns _ =>
      optionalSlots distinct [slot "DISTINCT "] ++ columnSlots (.allColumns [])
  | .count distinct, col => optionalSlots distinct [slot "DISTINCT "] ++ columnSlots col
  | _, col => columnSlots col

def aggregateSlots (fn : Aggregate) (col : ColumnLike) (aliasName : Text) : List Slot :=
  slot (aggregateText fn) :: argumentSlots fn col ++ slot ")" :: aliasSlots aliasName

def selectStartSlots (distinct : Bool) : List Slot :=
  slot "SELECT " :: optionalSlots distinct [slot "DISTINCT "]

def limitSlots (limit offset : ℕ) : List Slot :=
  [slot " LIMIT ", .fixed (.number limit)] ++
    optionalSlots (0 < offset) [slot " OFFSET ", .fixed (.number offset)]

def cteStartSlots (recursive : Bool) (name : Text) : List Slot :=
  slot "WITH " :: optionalSlots recursive [slot "RECURSIVE "] ++ [nameSlot name, slot " AS ("]

def constraintSlots (isNullable isPrimaryKey isUnique : Bool) : List Slot :=
  optionalSlots isPrimaryKey [slot " PRIMARY KEY"] ++
  optionalSlots (!isNullable && !isPrimaryKey) [slot " NOT NULL"] ++
  optionalSlots (isUnique && !isPrimaryKey) [slot " UNIQUE"]

def dynamicFieldSlots (field : DynamicFieldSchema) : List Slot :=
  [nameSlot field.name, slot " ", .fixed (.raw field.dbType)] ++
  constraintSlots field.isNullable field.isPrimaryKey field.isUnique ++
  optionalSlots (field.defaultValue ≠ []) [slot " DEFAULT ", .fixed (.raw field.defaultValue)] ++
  optionalSlots (field.isForeignKey ∧ field.foreignTable ≠ [])
    [slot " REFERENCES ", nameSlot field.foreignTable, slot "(", nameSlot field.foreignColumn,
      slot ")"]

def staticFieldSlots (field : StaticFieldSchema) : List Slot :=
  [nameSlot field.name, slot " ", .fixed (.raw field.sqlType)] ++
  constraintSlots field.isNullable field.isPrimaryKey field.isUnique

def createColumnsSlots : SchemaTable → List Slot
  | .dynamic none => []
  | .dynamic (some table) =>
      slot " (" :: separatedSlots dynamicFieldSlots table.fields ++ [slot ")"]
  | .static table => slot " (" :: separatedSlots staticFieldSlots table.fields ++ [slot ")"]

def createTableSlots (table : SchemaTable) (ifNotExists : Bool) : List Slot :=
  slot "CREATE TABLE " :: optionalSlots ifNotExists [slot "IF NOT EXISTS "] ++
    tableSlots (.schema table) ++ createColumnsSlots table

def dropTableSlots (table : Table) (ifExists cascade : Bool) : List Slot :=
  slot "DROP TABLE " :: optionalSlots ifExists [slot "IF EXISTS "] ++ tableSlots table ++
    optionalSlots cascade [slot " CASCADE"]

def storedSlots (value : FieldValue) : List Slot := [.hole (.stored value)]

def rowSlots (row : List FieldValue) : List Slot :=
  slot "(" :: separatedSlots storedSlots row ++ [slot ")"]

def assignmentSlots (assignment : Text × FieldValue) : List Slot :=
  nameSlot assignment.1 :: slot " = " :: storedSlots assignment.2

def insertSlots (table : Table) (columns : List Text) (rows : List (List FieldValue)) :
    List Slot :=
  slot "INSERT INTO " :: tableSlots table ++
  slot " (" :: separatedSlots (fun name => [nameSlot name]) columns ++
  slot ") VALUES " :: separatedSlots rowSlots rows

def updateSlots (table : Table) (assignments : List (Text × FieldValue)) : List Slot :=
  slot "UPDATE " :: tableSlots table ++ slot " SET " :: separatedSlots assignmentSlots assignments

def deleteSlots (table : Table) : List Slot := slot "DELETE FROM " :: tableSlots table

def template : {k : Arity} → Node k → (isFirst : Bool) → List Slot
  | _, .column col, _ => columnSlots col
  | _, .literal _ value aliasName, _ => .hole (.literal value) :: aliasSlots aliasName
  | _, .nullLiteral, _ => [slot "NULL"]
  | _, .paramPlaceholder, _ => [.hole .placeholder]
  | _, .binaryExpr op left right, _ =>
      slot "(" :: template left true ++ slot (binaryOpText op) :: template right true ++ [slot ")"]
  | _, .unaryExpr op operand, _ =>
      if op.isPostfix then template operand true ++ [slot (unaryOpText op)]
      else slot (unaryOpText op) :: template operand true
  | _, .betweenExpr operand lower upper, _ =>
      template operand true ++ slot " BETWEEN " :: template lower true ++
        slot " AND " :: template upper true
  | _, .inListExpr operand values, _ =>
      template operand true ++ slot " IN (" :: template values true ++ [slot ")"]
  | _, .subquery query aliasName, _ =>
      slot "(" :: template query true ++ slot ")" :: aliasSlots aliasName
  | _, .existsExpr query, _ => slot "EXISTS (" :: template query true ++ [slot ")"]
  | _, .aggregateExpr fn col aliasName, _ => aggregateSlots fn col aliasName
  | _, .selectExpr distinct columns, _ => selectStartSlots distinct ++ template columns true
  | _, .fromTableExpr select table aliasName, _ =>
      template select true ++ slot " FROM " :: tableSlots table ++ aliasSlots aliasName
  | _, .fromCteExpr select name query recursive, _ =>
      cteStartSlots recursive name ++ template query true ++ slot ")" :: slot " " ::
        template select true ++ slot " FROM " :: tableNameSlots name
  | _, .whereExpr query condition, _ =>
      template query true ++ slot " WHERE " :: template condition true
  | _, .groupByColumnExpr query columns, _ =>
      template query true ++ slot " GROUP BY " :: separatedSlots columnSlots columns
  | _, .groupByQueryExpr query criteria, _ =>
      template query true ++ slot " GROUP BY " :: template criteria true
  | _, .havingExpr query condition, _ =>
      template query true ++ slot " HAVING " :: template condition true
  | _, .orderByExpr query orders, _ =>
      template query true ++ slot " ORDER BY " :: separatedSlots orderSlots orders
  | _, .limitExpr query count offset, _ => template query true ++ limitSlots count offset
  | _, .joinExpr query onCondition table type aliasName, _ =>
      template query true ++ slot (joinText type) :: tableSlots table ++ aliasSlots aliasName ++
        slot " ON " :: template onCondition true
  | _, .insertExpr table columns rows, _ => insertSlots table columns rows
  | _, .updateExpr table assignments, _ => updateSlots table assignments
  | _, .updateWhereExpr table assignments condition, _ =>
      updateSlots table assignments ++ slot " WHERE " :: template condition true
  | _, .deleteExpr table, _ => deleteSlots table
  | _, .deleteWhereExpr table condition, _ =>
      deleteSlots table ++ slot " WHERE " :: template condition true
  | _, .setOpExpr left right op, _ =>
      template left true ++ slot (setOpText op) :: template right true
  | _, .caseExpr whens aliasName, _ =>
      slot "CASE" :: template whens true ++ slot " END" :: aliasSlots aliasName
  | _, .caseExprWithElse whens otherwise aliasName, _ =>
      slot "CASE" :: template whens true ++ slot " ELSE " :: template otherwise true ++
        slot " END" :: aliasSlots aliasName
  | _, .cteExpr name query recursive, _ =>
      cteStartSlots recursive name ++ template query true ++ [slot ")", slot " "]
  | _, .createTableExpr table ifNotExists, _ => createTableSlots table ifNotExists
  | _, .dropTableExpr table ifExists cascade, _ => dropTableSlots table ifExists cascade
  | _, .nil, _ => []
  | _, .cons head tail, isFirst =>
      optionalSlots (!isFirst) [slot ", "] ++ template head true ++ template tail false
  | _, .noWhen, _ => []
  | _, .when condition value rest, _ =>
      slot " WHEN " :: template condition true ++ slot " THEN " :: template value true ++
        template rest true

/-! ### Filling the holes -/

def fillOne (cfg : Setting) : Slot → Visit Unit
  | .fixed p => emit p.piece
  | .hole (.literal value) => visitValue cfg .literal value
  | .hole (.stored value) => visitValue cfg .stored value
  | .hole .placeholder => visitParamPlaceholder

def fill (cfg : Setting) (slots : List Slot) (v : Visitor) : Visitor :=
  slots.foldl (fun v s => ((fillOne cfg s).run v).2) v

def Slot.origin? : Slot → Option Origin
  | .fixed _ => none
  | .hole origin => some origin

def Origin.literal? : Origin → Option FieldValue
  | .literal value => some value
  | _ => none

section

variable {cfg : Setting} {α β : Type}

@[simp] theorem run_bind (a : Visit α) (f : α → Visit β) (v : Visitor) :
    (a >>= f).run v = (f (a.run v).1).run (a.run v).2 := rfl

@[simp] theorem run_pure (r : α) (v : Visitor) : (pure r : Visit α).run v = (r, v) := rfl

@[simp] theorem fill_nil (v : Visitor) : fill cfg [] v = v := rfl

@[simp] theorem fill_cons (s : Slot) (slots : List Slot) (v : Visitor) :
    fill cfg (s :: slots) v = fill cfg slots ((fillOne cfg s).run v).2 := rfl

@[simp] theorem fill_append (slots more : List Slot) (v : Visitor) :
    fill cfg (slots ++ more) v = fill cfg more (fill cfg slots v) :=
  List.foldl_append

theorem fillOne_slot (s : String) (v : Visitor) :
    ((fillOne cfg (slot s)).run v).2 = ((append s).run v).2 := rfl

theorem fillOne_name (name : Text) (v : Visitor) :
    ((fillOne cfg (nameSlot name)).run v).2 = ((quote name).run v).2 := rfl

theorem fill_separated {α : Type} {slots : α → List Slot} {visitOne : α → Visit Unit}
    (h : ∀ a v, fill cfg (slots a) v = ((visitOne a).run v).2) (as : List α) (v : Visitor) :
    fill cfg (separatedSlots slots as) v = ((separated visitOne as).run v).2 := by
  induction as generalizing v with
  | nil => rfl
  | cons a as ih =>
    cases as with
    | nil => exact h a v
    | cons b as =>
      simp only [separatedSlots, separated, fill_append, fill_cons, fillOne_slot, run_bind, h, ih]

theorem fill_tableName (tableName : Text) (v : Visitor) :
    fill cfg (tableNameSlots tableName) v = ((visitTableName tableName).run v).2 := by
  unfold tableNameSlots visitTableName
  split_ifs <;> rfl

theorem fill_table (table : Table) (v : Visitor) :
    fill cfg (tableSlots table) v = ((visitTable table).run v).2 := by
  rcases table with (table | table) | tableName
  · cases table <;> rfl
  · exact fill_tableName _ v
  · exact fill_tableName _ v

theorem fill_alias (aliasName : Text) (v : Visitor) :
    fill cfg (aliasSlots aliasName) v = ((visitAlias aliasName).run v).2 := by
  unfold aliasSlots visitAlias
  split_ifs <;> rfl

theorem fill_column (col : ColumnLike) (v : Visitor) :
    fill cfg (columnSlots col) v = ((visitColumn col).run v).2 := by
  cases col with
  | column name table aliasName =>
    simp only [columnSlots, visitColumn, qualifierSlots, fill_append, fill_cons, fillOne_name,
      fill_alias]
    split_ifs with h
    · simp only [run_bind, visitTableName, if_pos h]
      rfl
    · rfl
  | allColumns table =>
    simp only [columnSlots, visitColumn, visitAllColumns, qualifierSlots, fill_append]
    split_ifs with h
    · simp only [run_bind, visitTableName, if_pos h]
      rfl
    · rfl

theorem fill_order (order : OrderBy) (v : Visitor) :
    fill cfg (orderSlots order) v = ((visitOrderBy order).run v).2 := by
  simp only [orderSlots, visitOrderBy, fill_append, fill_cons, fill_nil, fillOne_slot, run_bind,
    fill_column]
  rfl

theorem fill_aggregate (fn : Aggregate) (col : ColumnLike) (aliasName : Text) (v : Visitor) :
    fill cfg (aggregateSlots fn col aliasName) v =
      ((visitAggregate fn col aliasName).run v).2 := by
  cases fn with
  | count distinct =>
    cases distinct <;> cases col <;>
      simp only [aggregateSlots, argumentSlots, visitAggregate, fill_append, fill_cons,
        fillOne_slot, fill_alias, fill_column, optionalSlots, if_true, if_false, run_bind,
        Bool.false_eq_true, fill_nil] <;> rfl
  | _ =>
    simp only [aggregateSlots, argumentSlots, visitAggregate, fill_append, fill_cons,
      fillOne_slot, fill_alias, fill_column, run_bind]
    rfl

theorem fill_selectStart (distinct : Bool) (v : Visitor) :
    fill cfg (selectStartSlots distinct) v = ((visitSelectStart distinct).run v).2 := by
  cases distinct <;> rfl

theorem fill_limit (limit offset : ℕ) (v : Visitor) :
    fill cfg (limitSlots limit offset) v = ((visitLimit limit offset).run v).2 := by
  unfold limitSlots visitLimit optionalSlots
  by_cases h : 0 < offset
  · simp only [h, decide_true, if_true]
    rfl
  · simp only [h, decide_false, Bool.false_eq_true, if_false]
    rfl

theorem fill_cteStart (recursive : Bool) (name : Text) (v : Visitor) :
    fill cfg (cteStartSlots recursive name) v = ((visitCteStart recursive name).run v).2 := by
  cases recursive <;> rfl

theorem fill_staticField (field : StaticFieldSchema) (v : Visitor) :
    fill cfg (staticFieldSlots field) v = ((visitStaticField field).run v).2 := by
  obtain ⟨name, sqlType, isNullable, isPrimaryKey, isUnique⟩ := field
  cases isNullable <;> cases isPrimaryKey <;> cases isUnique <;> rfl

theorem fill_dynamicField (field : DynamicFieldSchema) (v : Visitor) :
    fill cfg (dynamicFieldSlots field) v = ((visitDynamicField field).run v).2 := by
  obtain ⟨name, dbType, isNullable, isPrimaryKey, isForeignKey, isUnique, foreignTable,
    foreignColumn, defaultValue⟩ := field
  simp only [dynamicFieldSlots, visitDynamicField, optionalSlots]
  by_cases hdefault : defaultValue = [] <;> by_cases hforeign : foreignTable = [] <;>
    cases isNullable <;> cases isPrimaryKey <;> cases isUnique <;> cases isForeignKey <;>
    simp only [hdefault, hforeign, ne_eq, not_true_eq_false, not_false_eq_true, decide_true,
      decide_false, and_true, and_false, Bool.false_eq_true, if_true, if_false] <;> rfl

theorem fill_createTable (table : SchemaTable) (ifNotExists : Bool) (v : Visitor) :
    fill cfg (createTableSlots table ifNotExists) v =
      ((visitCreateTable table ifNotExists).run v).2 := by
  have hcolumns : ∀ v, fill cfg (createColumnsSlots table) v =
      ((visitCreateTableColumns table).run v).2 := by
    intro v
    rcases table with (_ | table) | table
    · rfl
    · simp only [createColumnsSlots, visitCreateTableColumns, fill_append, fill_cons, fill_nil,
        fillOne_slot, run_bind, fill_separated fill_dynamicField]
    · simp only [createColumnsSlots, visitCreateTableColumns, fill_append, fill_cons, fill_nil,
        fillOne_slot, run_bind, fill_separated fill_staticField]
  cases ifNotExists <;>
    simp only [createTableSlots, visitCreateTable, optionalSlots, fill_append, fill_cons, fill_nil,
      fillOne_slot, fill_table, hcolumns, run_bind, Bool.false_eq_true, if_true, if_false]

theorem fill_dropTable (table : Table) (ifExists cascade : Bool) (v : Visitor) :
    fill cfg (dropTableSlots table ifExists cascade) v =
      ((visitDropTable table ifExists cascade).run v).2 := by
  cases ifExists <;> cases cascade <;>
    simp only [dropTableSlots, visitDropTable, optionalSlots, fill_append, fill_cons, fill_nil,
      fillOne_slot, fill_table, run_bind, Bool.false_eq_true, if_true, if_false] <;> rfl

theorem fill_stored (value : FieldValue) (v : Visitor) :
    fill cfg (storedSlots value) v = ((visitValue cfg .stored value).run v).2 := rfl

theorem fill_insert (table : Table) (columns : List Text) (rows : List (List FieldValue))
    (v : Visitor) :
    fill cfg (insertSlots table columns rows) v =
      ((visitInsert cfg table columns rows).run v).2 := by
  have hcolumns : ∀ v, fill cfg (separatedSlots (fun name => [nameSlot name]) columns) v =
      ((separated quote columns).run v).2 := fill_separated (fun _ _ => rfl) columns
  have hrow : ∀ (row : List FieldValue) (v : Visitor), fill cfg (rowSlots row) v =
      ((do
        append "("
        separated (visitValue cfg .stored) row
        append ")" : Visit Unit).run v).2 := by
    intro row v
    simp only [rowSlots, fill_append, fill_cons, fill_nil, fillOne_slot, run_bind,
      fill_separated fill_stored]
  simp only [insertSlots, visitInsert, fill_append, fill_cons, fillOne_slot, fill_table, hcolumns,
    run_bind, fill_separated hrow]

theorem fill_update (table : Table) (assignments : List (Text × FieldValue)) (v : Visitor) :
    fill cfg (updateSlots table assignments) v = ((visitUpdate cfg table assignments).run v).2 := by
  have hassignment : ∀ (assignment : Text × FieldValue) (v : Visitor),
      fill cfg (assignmentSlots assignment) v =
        ((do
          quote assignment.1
          append " = "
          visitValue cfg .stored assignment.2 : Visit Unit).run v).2 := fun _ _ => rfl
  simp only [updateSlots, visitUpdate, fill_append, fill_cons, fillOne_slot, fill_table, run_bind,
    fill_separated hassignment]

theorem fill_delete (table : Table) (v : Visitor) :
    fill cfg (deleteSlots table) v = ((visitDelete table).run v).2 := by
  simp only [deleteSlots, visitDelete, fill_cons, fillOne_slot, fill_table, run_bind]

/-! ### Holes -/

def holes (slots : List Slot) : List Origin := slots.filterMap Slot.origin?

@[simp] theorem holes_nil : holes [] = [] := rfl

@[simp] theorem holes_append (slots more : List Slot) :
    holes (slots ++ more) = holes slots ++ holes more :=
  List.filterMap_append

@[simp] theorem holes_fixed (p : Fixed) (slots : List Slot) :
    holes (.fixed p :: slots) = holes slots := rfl

@[simp] theorem holes_slot (s : String) (slots : List Slot) :
    holes (slot s :: slots) = holes slots := rfl

@[simp] theorem holes_name (name : Text) (slots : List Slot) :
    holes (nameSlot name :: slots) = holes slots := rfl

@[simp] theorem holes_hole (origin : Origin) (slots : List Slot) :
    holes (.hole origin :: slots) = origin :: holes slots := rfl

@[simp] theorem holes_optional (present : Bool) (slots : List Slot) :
    holes (optionalSlots present slots) = if present then holes slots else [] := by
  unfold optionalSlots
  split_ifs <;> rfl

@[simp] theorem holes_separated {α : Type} (slots : α → List Slot) (as : List α) :
    holes (separatedSlots slots as) = as.flatMap fun a => holes (slots a) := by
  induction as with
  | nil => rfl
  | cons a as ih =>
    cases as with
    | nil => simp [separatedSlots]
    | cons b as => rw [separatedSlots, holes_append, holes_slot, ih, List.flatMap_cons (x := a)]

@[simp] theorem holes_tableName (tableName : Text) : holes (tableNameSlots tableName) = [] := by
  unfold tableNameSlots
  split_ifs <;> rfl

@[simp] theorem holes_table (table : Table) : holes (tableSlots table) = [] := by
  rcases table with (table | table) | tableName
  · cases table <;> rfl
  · exact holes_tableName _
  · exact holes_tableName _

@[simp] theorem holes_alias (aliasName : Text) : holes (aliasSlots aliasName) = [] := by
  unfold aliasSlots
  split_ifs <;> rfl

@[simp] theorem holes_column (col : ColumnLike) : holes (columnSlots col) = [] := by
  cases col <;> simp only [columnSlots, qualifierSlots] <;> split_ifs <;> simp

@[simp] theorem holes_order (order : OrderBy) : holes (orderSlots order) = [] := by
  simp [orderSlots]

@[simp] theorem holes_aggregate (fn : Aggregate) (col : ColumnLike) (aliasName : Text) :
    holes (aggregateSlots fn col aliasName) = [] := by
  cases fn <;> cases col <;> simp [aggregateSlots, argumentSlots]

@[simp] theorem holes_selectStart (distinct : Bool) : holes (selectStartSlots distinct) = [] := by
  simp [selectStartSlots]

@[simp] theorem holes_limit (limit offset : ℕ) : holes (limitSlots limit offset) = [] := by
  simp [limitSlots]

@[simp] theorem holes_cteStart (recursive : Bool) (name : Text) :
    holes (cteStartSlots recursive name) = [] := by
  simp [cteStartSlots]

@[simp] theorem holes_createTable (table : SchemaTable) (ifNotExists : Bool) :
    holes (createTableSlots table ifNotExists) = [] := by
  have hdynamic : ∀ field, holes (dynamicFieldSlots field) = [] := by
    simp [dynamicFieldSlots, constraintSlots]
  have hstatic : ∀ field, holes (staticFieldSlots field) = [] := by
    simp [staticFieldSlots, constraintSlots]
  rcases table with (_ | table) | table <;>
    simp [createTableSlots, createColumnsSlots, hdynamic, hstatic]

@[simp] theorem holes_dropTable (table : Table) (ifExists cascade : Bool) :
    holes (dropTableSlots table ifExists cascade) = [] := by
  simp [dropTableSlots]

@[simp] theorem holes_insert (table : Table) (columns : List Text)
    (rows : List (List FieldValue)) :
    holes (insertSlots table columns rows) = rows.flatten.map .stored := by
  have hrow : ∀ row, holes (rowSlots row) = row.map .stored := by
    intro row
    simp [rowSlots, storedSlots, ← List.map_eq_flatMap]
  simp [insertSlots, hrow, List.map_flatten, List.flatMap]

@[simp] theorem holes_update (table : Table) (assignments : List (Text × FieldValue)) :
    holes (updateSlots table assignments) = assignments.map fun a => .stored a.2 := by
  simp [updateSlots, assignmentSlots, storedSlots, ← List.map_eq_flatMap]

@[simp] theorem holes_delete (table : Table) : holes (deleteSlots table) = [] := by
  simp [deleteSlots]

/-! ### Captured literals -/

/-- The values of the literals, which Tuple mode captures. -/
def literals (slots : List Slot) : List FieldValue := (holes slots).filterMap Origin.literal?

/-- What comes back as the tuple of parameters. -/
def captured (cfg : Setting) (slots : List Slot) : List FieldValue :=
  if cfg.mode = .tuple then literals slots else []

theorem visitLiteral_eq (value : FieldValue) (aliasName : Text) (v : Visitor) :
    (visitLiteral cfg value aliasName).run v =
      (captured cfg [.hole (.literal value)],
        ((visitAlias aliasName).run ((visitValue cfg .literal value).run v).2).2) := rfl

theorem captured_of_holes {slots : List Slot} (h : holes slots = []) :
    captured cfg slots = [] := by
  simp [captured, literals, h]

theorem captured_insert (table : Table) (columns : List Text) (rows : List (List FieldValue)) :
    captured cfg (insertSlots table columns rows) = [] := by
  simp [captured, literals, List.filterMap_map, Function.comp_def, Origin.literal?]

theorem captured_update (table : Table) (assignments : List (Text × FieldValue)) :
    captured cfg (updateSlots table assignments) = [] := by
  simp [captured, literals, List.filterMap_map, Function.comp_def, Origin.literal?]

theorem captured_placeholder : captured cfg [.hole .placeholder] = [] := by
  simp [captured, literals, Origin.literal?]

theorem captured_slot (s : String) (slots : List Slot) :
    captured cfg (slot s :: slots) = captured cfg slots := rfl

theorem captured_append (slots more : List Slot) :
    captured cfg (slots ++ more) = catParams cfg (captured cfg slots) (captured cfg more) := by
  unfold captured catParams literals
  split_ifs <;> simp

theorem catParams_assoc (p q r : List FieldValue) :
    catParams cfg (catParams cfg p q) r = catParams cfg p (catParams cfg q r) := by
  unfold catParams
  split_ifs <;> simp

theorem catParams_nil_right (slots : List Slot) :
    catParams cfg (captured cfg slots) [] = captured cfg slots := by
  unfold captured catParams
  split_ifs <;> simp

theorem catParams_nil_left (slots : List Slot) :
    catParams cfg [] (captured cfg slots) = captured cfg slots := by
  unfold captured catParams
  split_ifs <;> simp

/-- The visitor fills the template from left to right and returns its literals in
Tuple mode. -/
theorem visit_eq {k : Arity} (e : Node k) (isFirst : Bool) (v : Visitor) :
    (visit cfg e isFirst).run v =
      (captured cfg (template e isFirst), fill cfg (template e isFirst) v) := by
  induction e generalizing isFirst v with
  | literal type value aliasName =>
    simp only [visit, template, visitLiteral_eq, fill_cons, fill_alias, captured, literals,
      holes_hole, holes_nil, holes_alias]
    rfl
  | paramPlaceholder =>
    simp only [visit, template, run_bind, run_pure, captured_placeholder]
    rfl
  -- nodes without children
  | column | nullLiteral | aggregateExpr | insertExpr | updateExpr | deleteExpr
  | createTableExpr | dropTableExpr | nil | noWhen =>
    simp only [visit, template, run_bind, run_pure, fill_cons, fill_nil, fillOne_slot, fill_column,
      fill_aggregate, fill_insert, fill_update, fill_delete, fill_createTable, fill_dropTable,
      captured_slot, captured_insert, captured_update, captured_of_holes,
      captured_of_holes holes_nil, holes_column, holes_aggregate, holes_delete, holes_createTable,
      holes_dropTable]
  -- nodes with one child
  | unaryExpr op operand ih =>
    simp only [visit, template]
    split_ifs <;>
      simp only [run_bind, run_pure, ih, fill_append, fill_cons, fill_nil, fillOne_slot,
        captured_append, captured_slot, captured_of_holes holes_nil, catParams_nil_right]
  | groupByColumnExpr query columns ih =>
    simp only [visit, template, run_bind, run_pure, ih, fill_append, fill_cons, fillOne_slot,
      fill_separated fill_column, captured_append, captured_slot,
      captured_of_holes ((holes_separated columnSlots columns).trans (by simp))]
  | orderByExpr query orders ih =>
    simp only [visit, template, run_bind, run_pure, ih, fill_append, fill_cons, fillOne_slot,
      fill_separated fill_order, captured_append, captured_slot,
      captured_of_holes ((holes_separated orderSlots orders).trans (by simp))]
  | subquery _ _ ih | existsExpr _ ih | selectExpr _ _ ih | fromTableExpr _ _ _ ih
  | limitExpr _ _ _ ih | updateWhereExpr _ _ _ ih | deleteWhereExpr _ _ ih | caseExpr _ _ ih
  | cteExpr _ _ _ ih =>
    simp only [visit, template, run_bind, run_pure, ih, fill_append, fill_cons, fill_nil,
      fillOne_slot, fill_alias, fill_selectStart, fill_table, fill_limit, fill_update, fill_delete,
      fill_cteStart, captured_append, captured_slot, captured_update, captured_of_holes,
      captured_of_holes holes_nil, holes_alias, holes_selectStart, holes_table, holes_limit,
      holes_delete, holes_cteStart, catParams_nil_left, catParams_nil_right]
  -- nodes with more
  | binaryExpr _ _ _ ihl ihr | inListExpr _ _ ihl ihr | fromCteExpr _ _ _ _ ihl ihr
  | whereExpr _ _ ihl ihr | groupByQueryExpr _ _ ihl ihr | havingExpr _ _ ihl ihr
  | joinExpr _ _ _ _ _ ihl ihr | setOpExpr _ _ _ ihl ihr | caseExprWithElse _ _ _ ihl ihr =>
    simp only [visit, template, run_bind, run_pure, ihl, ihr, fill_append, fill_cons, fill_nil,
      fillOne_slot, fill_table, fill_tableName, fill_alias, fill_cteStart, captured_append,
      captured_slot, captured_of_holes, captured_of_holes holes_nil, holes_table, holes_tableName,
      holes_alias, holes_cteStart, catParams_nil_left, catParams_nil_right, catParams_assoc]
  | betweenExpr _ _ _ ihc ihv ihr | when _ _ _ ihc ihv ihr =>
    simp only [visit, template, run_bind, run_pure, ihc, ihv, ihr, fill_append, fill_cons,
      fillOne_slot, captured_append, captured_slot]
  | cons head tail ihh iht =>
    cases isFirst <;>
      simp only [visit, template, optionalSlots, Bool.not_true, Bool.not_false, Bool.false_eq_true,
        if_true, if_false, run_bind, run_pure, ihh, iht, fill_append, fill_cons, fill_nil,
        fillOne_slot, captured_append, captured_slot, captured_of_holes holes_nil,
        catParams_nil_left]

end

/-! ### Rvalues -/

section

variable (cfg : Setting)

theorem separatedRvalue_eq {α : Type} {moveOne : α → Visit α} {visitOne : α → Visit Unit}
    {left : α → α} (h : ∀ a, moveOne a = (fun _ => left a) <$> visitOne a) (as : List α) :
    separatedRvalue moveOne as = (fun _ => as.map left) <$> separated visitOne as := by
  fun_induction separatedRvalue moveOne as with
  | case1 => rfl
  | case2 a => simp [separated, h]
  | case3 a b rest ih => simp [separated, h, ih]

theorem fst_visitLiteralRvalue (type : LiteralType) (value : FieldValue) (aliasName : Text) :
    Prod.fst <$> visitLiteralRvalue cfg type value aliasName =
      visitLiteral cfg value aliasName := by
  unfold visitLiteralRvalue visitLiteral visitValueRvalue captureParam
  by_cases hmode : cfg.mode = .tuple
  · simp [hmode]
  · split_ifs <;> simp

theorem visitInsertRvalue_eq (table : Table) (columns : List Text)
    (rows : List (List FieldValue)) :
    visitInsertRvalue cfg table columns rows =
      (fun _ => .insertExpr table (columns.map cfg.residueText) (rows.map (List.map cfg.residue)))
        <$> visitInsert cfg table columns rows := by
  have hcolumns : separatedRvalue (quoteRvalue cfg) columns = _ :=
    separatedRvalue_eq (fun _ => rfl) columns
  have hrow : ∀ row, visitRowRvalue cfg row = (fun _ => row.map cfg.residue) <$> (do
      append "("
      separated (visitValue cfg .stored) row
      append ")") := by
    intro row
    have hvalues : separatedRvalue (visitValueRvalue cfg .stored) row = _ :=
      separatedRvalue_eq (fun _ => rfl) row
    simp only [visitRowRvalue, hvalues, map_bind, bind_map_left, bind_pure_comp]
  simp only [visitInsertRvalue, visitInsert, hcolumns, separatedRvalue_eq hrow, map_bind,
    bind_map_left, bind_pure_comp, Functor.map_map]

theorem visitUpdateRvalue_eq (table : Table) (assignments : List (Text × FieldValue)) :
    visitUpdateRvalue cfg table assignments =
      (fun _ => assignments.map fun a => (a.1, cfg.residue a.2)) <$>
        visitUpdate cfg table assignments := by
  simp only [visitUpdateRvalue, visitUpdate, map_bind]
  rw [separatedRvalue_eq]
  intro a
  simp only [visitAssignmentRvalue, visitValueRvalue, map_bind, bind_pure_comp, Functor.map_map]

/-- The overloads for rvalues append the same text and return the same parameters, whatever is
left of what they hand on. -/
theorem fst_visitRvalue {k : Arity} (e : Node k) (isFirst : Bool) :
    Prod.fst <$> visitRvalue cfg e isFirst = visit cfg e isFirst := by
  induction e generalizing isFirst with
  | literal type value aliasName => exact fst_visitLiteralRvalue cfg type value aliasName
  | unaryExpr op operand ih =>
    simp only [visitRvalue, visit, ← ih]
    split_ifs <;> simp only [map_bind, bind_map_left, bind_pure_comp, Functor.map_map]
  | selectExpr distinct columns ih =>
    simp only [visitRvalue, visit, ← ih, map_bind, bind_pure_comp, Functor.map_map]
  | subquery _ _ ih | existsExpr _ ih | fromTableExpr _ _ _ ih | groupByColumnExpr _ _ ih
  | orderByExpr _ _ ih | limitExpr _ _ _ ih | deleteWhereExpr _ _ ih | caseExpr _ _ ih
  | cteExpr _ _ _ ih =>
    simp only [visitRvalue, visit, ← ih, map_bind, bind_map_left, map_pure]
  | binaryExpr _ _ _ ihl ihr | inListExpr _ _ ihl ihr | fromCteExpr _ _ _ _ ihl ihr
  | whereExpr _ _ ihl ihr | groupByQueryExpr _ _ ihl ihr | havingExpr _ _ ihl ihr
  | joinExpr _ _ _ _ _ ihl ihr | setOpExpr _ _ _ ihl ihr | caseExprWithElse _ _ _ ihl ihr =>
    simp only [visitRvalue, visit, ← ihl, ← ihr, map_bind, bind_map_left, map_pure]
  | betweenExpr _ _ _ ihc ihv ihr | when _ _ _ ihc ihv ihr =>
    simp only [visitRvalue, visit, ← ihc, ← ihv, ← ihr, map_bind, bind_map_left, map_pure]
  | insertExpr table columns rows =>
    simp [visitRvalue, visit, visitInsertRvalue_eq]
  | updateExpr table assignments =>
    simp [visitRvalue, visit, visitUpdateRvalue_eq]
  | updateWhereExpr table assignments condition ih =>
    simp [visitRvalue, visit, visitUpdateRvalue_eq, ← ih]
  | cons head tail ihh iht =>
    simp only [visitRvalue, visit, ← ihh, ← iht]
    split_ifs <;> simp only [map_bind, bind_map_left, map_pure]
  | column | nullLiteral | paramPlaceholder | aggregateExpr | deleteExpr | createTableExpr
  | dropTableExpr | nil | noWhen => simp [visitRvalue]

/-- A query is compiled by the overloads for lvalues, whichever are called. -/
theorem compile_eq (e : Expression) : compile cfg e = (visit cfg e true).run .fresh := by
  rw [compile]
  cases cfg.category with
  | lvalue => rfl
  | rvalue => exact congrArg (·.run Visitor.fresh) (fst_visitRvalue cfg e true)

end

/-! ### What is added to the text -/

/-- The pieces that filling the slots adds to the text. -/
def written (cfg : Setting) (v : Visitor) (slots : List Slot) : List Piece :=
  (fill cfg slots v).sql.drop v.sql.length

theorem fillOne_sql (cfg : Setting) (s : Slot) (v : Visitor) :
    ∃ p, ((fillOne cfg s).run v).2.sql = v.sql ++ [p] := by
  obtain ⟨mode, category, residue⟩ := cfg
  rcases s with p | (value | value | _)
  · exact ⟨_, rfl⟩
  · cases mode <;> exact ⟨_, rfl⟩
  · cases mode <;> exact ⟨_, rfl⟩
  · exact ⟨_, rfl⟩

theorem fill_sql (cfg : Setting) (slots : List Slot) (v : Visitor) :
    (fill cfg slots v).sql = v.sql ++ written cfg v slots := by
  have hpieces : ∃ ps, (fill cfg slots v).sql = v.sql ++ ps := by
    induction slots generalizing v with
    | nil => exact ⟨[], by simp⟩
    | cons s slots ih =>
      obtain ⟨p, hp⟩ := fillOne_sql cfg s v
      obtain ⟨ps, hps⟩ := ih ((fillOne cfg s).run v).2
      exact ⟨p :: ps, by rw [fill_cons, hps, hp, List.append_assoc]; rfl⟩
  obtain ⟨ps, hps⟩ := hpieces
  rw [written, hps, List.drop_left]

theorem written_append (cfg : Setting) (v : Visitor) (slots more : List Slot) :
    written cfg v (slots ++ more) = written cfg v slots ++ written cfg (fill cfg slots v) more := by
  refine List.append_cancel_left (?_ : v.sql ++ _ = v.sql ++ _)
  rw [← fill_sql, fill_append, fill_sql cfg more, fill_sql cfg slots, List.append_assoc]

theorem written_slot (cfg : Setting) (v : Visitor) (s : String) :
    written cfg v [slot s] = [.text s] :=
  List.drop_left

theorem compile_sql (cfg : Setting) (e : Expression) :
    (compile cfg e).2.sql = written cfg .fresh (template e true) := by
  rw [compile_eq, visit_eq, fill_sql]
  rfl

end Demiplane.Query

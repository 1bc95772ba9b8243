import Demiplane.Query.Lexing

/-!
Where aliases are written. The visitor does not know where in a query it is, and writes
an alias behind every column, literal, aggregate, CASE and subquery that has one. Here
each slot of the template is kept together with its place in the query.
-/

namespace Demiplane.Query

open Text Sql Sql.Lexer

/-- The parts of a query. `operand` is anything inside of an expression, and `statement`
what belongs to none of the others. -/
inductive Place where
  | statement
  | selectList
  | fromItem
  | joinItem
  | cteName
  | condition
  | operand
  | aggregateArgument
  | groupBy
  | having
  | orderBy
  deriving DecidableEq, Repr

/-- The places in which SQL has `AS`. -/
def Place.allowsAs : Place → Bool
  | .selectList | .fromItem | .joinItem | .cteName => true
  | _ => false

def put (place : Place) (slots : List Slot) : List (Slot × Place) := slots.map fun s => (s, place)

/-- The template with the place of each slot; `place` is that of the node. -/
def placed (place : Place) : {k : Arity} → Node k → (isFirst : Bool) → List (Slot × Place)
  | _, .column col, _ => put place (columnSlots col)
  | _, .literal _ value aliasName, _ =>
      put place (.hole (.literal value) :: aliasSlots aliasName)
  | _, .nullLiteral, _ => put place [slot "NULL"]
  | _, .paramPlaceholder, _ => put place [.hole .placeholder]
  | _, .binaryExpr op left right, _ =>
      put place [slot "("] ++ placed .operand left true ++ put place [slot (binaryOpText op)] ++
        placed .operand right true ++ put place [slot ")"]
  | _, .unaryExpr op operand, _ =>
      if op.isPostfix then placed .operand operand true ++ put place [slot (unaryOpText op)]
      else put place [slot (unaryOpText op)] ++ placed .operand operand true
  | _, .betweenExpr operand lower upper, _ =>
      placed .operand operand true ++ put place [slot " BETWEEN "] ++
        placed .operand lower true ++ put place [slot " AND "] ++ placed .operand upper true
  | _, .inListExpr operand values, _ =>
      placed .operand operand true ++ put place [slot " IN ("] ++ placed .operand values true ++
        put place [slot ")"]
  | _, .subquery query aliasName, _ =>
      put place [slot "("] ++ placed .statement query true ++
        put place (slot ")" :: aliasSlots aliasName)
  | _, .existsExpr query, _ =>
      put place [slot "EXISTS ("] ++ placed .statement query true ++ put place [slot ")"]
  | _, .aggregateExpr fn col aliasName, _ =>
      put place [slot (aggregateText fn)] ++ put .aggregateArgument (argumentSlots fn col) ++
        put place (slot ")" :: aliasSlots aliasName)
  | _, .selectExpr distinct columns, _ =>
      put place (selectStartSlots distinct) ++ placed .selectList columns true
  | _, .fromTableExpr select table aliasName, _ =>
      placed place select true ++ put place [slot " FROM "] ++
        put .fromItem (tableSlots table ++ aliasSlots aliasName)
  | _, .fromCteExpr select name query recursive, _ =>
      put .cteName (cteStartSlots recursive name) ++ placed .statement query true ++
        put place [slot ")", slot " "] ++ placed place select true ++ put place [slot " FROM "] ++
        put .fromItem (tableNameSlots name)
  | _, .whereExpr query condition, _ =>
      placed place query true ++ put place [slot " WHERE "] ++ placed .condition condition true
  | _, .groupByColumnExpr query columns, _ =>
      placed place query true ++ put place [slot " GROUP BY "] ++
        put .groupBy (separatedSlots columnSlots columns)
  | _, .groupByQueryExpr query criteria, _ =>
      placed place query true ++ put place [slot " GROUP BY "] ++ placed .groupBy criteria true
  | _, .havingExpr query condition, _ =>
      placed place query true ++ put place [slot " HAVING "] ++ placed .having condition true
  | _, .orderByExpr query orders, _ =>
      placed place query true ++ put place [slot " ORDER BY "] ++
        put .orderBy (separatedSlots orderSlots orders)
  | _, .limitExpr query count offset, _ =>
      placed place query true ++ put place (limitSlots count offset)
  | _, .joinExpr query onCondition table type aliasName, _ =>
      placed place query true ++ put place [slot (joinText type)] ++
        put .joinItem (tableSlots table ++ aliasSlots aliasName) ++ put place [slot " ON "] ++
        placed .condition onCondition true
  | _, .insertExpr table columns rows, _ => put place (insertSlots table columns rows)
  | _, .updateExpr table assignments, _ => put place (updateSlots table assignments)
  | _, .updateWhereExpr table assignments condition, _ =>
      put place (updateSlots table assignments) ++ put place [slot " WHERE "] ++
        placed .condition condition true
  | _, .deleteExpr table, _ => put place (deleteSlots table)
  | _, .deleteWhereExpr table condition, _ =>
      put place (deleteSlots table) ++ put place [slot " WHERE "] ++
        placed .condition condition true
  | _, .setOpExpr left right op, _ =>
      placed place left true ++ put place [slot (setOpText op)] ++ placed place right true
  | _, .caseExpr whens aliasName, _ =>
      put place [slot "CASE"] ++ placed .operand whens true ++
        put place (slot " END" :: aliasSlots aliasName)
  | _, .caseExprWithElse whens otherwise aliasName, _ =>
      put place [slot "CASE"] ++ placed .operand whens true ++ put place [slot " ELSE "] ++
        placed .operand otherwise true ++ put place (slot " END" :: aliasSlots aliasName)
  | _, .cteExpr name query recursive, _ =>
      put .cteName (cteStartSlots recursive name) ++ placed .statement query true ++
        put place [slot ")", slot " "]
  | _, .createTableExpr table ifNotExists, _ => put place (createTableSlots table ifNotExists)
  | _, .dropTableExpr table ifExists cascade, _ =>
      put place (dropTableSlots table ifExists cascade)
  | _, .nil, _ => []
  | _, .cons head tail, isFirst =>
      put place (optionalSlots (!isFirst) [slot ", "]) ++ placed place head true ++
        placed place tail false
  | _, .noWhen, _ => []
  | _, .when condition value rest, _ =>
      put place [slot " WHEN "] ++ placed .operand condition true ++ put place [slot " THEN "] ++
        placed .operand value true ++ placed place rest true

@[simp] theorem put_fst (place : Place) (slots : List Slot) :
    (put place slots).map Prod.fst = slots := by
  simp [put, Function.comp_def]

theorem placed_fst {k : Arity} (place : Place) (e : Node k) (isFirst : Bool) :
    (placed place e isFirst).map Prod.fst = template e isFirst := by
  induction e generalizing place isFirst with
  | unaryExpr op operand ih =>
    simp only [placed, template]
    split_ifs <;> simp [ih]
  | _ => simp [placed, template, aggregateSlots, *]

/-! ### Slots that write AS -/

/-- There is an `AS` among the tokens of the slot. -/
def Slot.writesAs : Slot → Bool
  | .fixed (.text s) => (scan (ascii s)).contains (.word (ascii "AS"))
  | _ => false

/-- Every `AS` stands where SQL has one. -/
def AsAllowed (slots : List (Slot × Place)) : Prop :=
  ∀ x ∈ slots, x.1.writesAs = true → x.2.allowsAs = true

@[simp] theorem asAllowed_nil : AsAllowed [] := by
  simp [AsAllowed]

@[simp] theorem asAllowed_append (slots more : List (Slot × Place)) :
    AsAllowed (slots ++ more) ↔ AsAllowed slots ∧ AsAllowed more := by
  simp [AsAllowed, or_imp, forall_and]

def writeAs (slots : List Slot) : Bool := slots.any Slot.writesAs

@[simp] theorem asAllowed_put (place : Place) (slots : List Slot) :
    AsAllowed (put place slots) ↔ (place.allowsAs || !writeAs slots) = true := by
  cases hplace : place.allowsAs with
  | true => simp [AsAllowed, put, hplace]
  | false => simp [AsAllowed, put, hplace, writeAs]

@[simp] theorem writeAs_nil : writeAs [] = false := rfl

@[simp] theorem writeAs_append (slots more : List Slot) :
    writeAs (slots ++ more) = (writeAs slots || writeAs more) :=
  List.any_append

@[simp] theorem writeAs_name (name : Text) (slots : List Slot) :
    writeAs (nameSlot name :: slots) = writeAs slots := rfl

@[simp] theorem writeAs_hole (origin : Origin) (slots : List Slot) :
    writeAs (.hole origin :: slots) = writeAs slots := rfl

@[simp] theorem writeAs_number (n : ℕ) (slots : List Slot) :
    writeAs (.fixed (.number n) :: slots) = writeAs slots := rfl

@[simp] theorem writeAs_raw (t : Text) (slots : List Slot) :
    writeAs (.fixed (.raw t) :: slots) = writeAs slots := rfl

theorem writeAs_slot {s : String} (h : (slot s).writesAs = false) (slots : List Slot) :
    writeAs (slot s :: slots) = writeAs slots := by
  simp [writeAs, h]

@[simp] theorem writeAs_optional (present : Bool) (slots : List Slot) :
    writeAs (optionalSlots present slots) = (present && writeAs slots) := by
  cases present <;> rfl

@[simp] theorem writeAs_separated {α : Type} (slots : α → List Slot) (as : List α) :
    writeAs (separatedSlots slots as) = as.any fun a => writeAs (slots a) := by
  induction as with
  | nil => rfl
  | cons a as ih =>
    cases as with
    | nil => simp [separatedSlots]
    | cons b as =>
      rw [separatedSlots, writeAs_append, writeAs_slot (by decide), ih, List.any_cons (a := a)]

@[simp] theorem writeAs_tableName (tableName : Text) :
    writeAs (tableNameSlots tableName) = false := by
  unfold tableNameSlots
  split_ifs <;> rfl

@[simp] theorem writeAs_table (table : Table) : writeAs (tableSlots table) = false := by
  rcases table with (table | table) | tableName
  · cases table <;> rfl
  · exact writeAs_tableName _
  · exact writeAs_tableName _

@[simp] theorem writeAs_alias (aliasName : Text) :
    writeAs (aliasSlots aliasName) = !aliasName.isEmpty := by
  cases aliasName with
  | nil => rfl
  | cons c t =>
    have has : (slot " AS ").writesAs = true := by decide
    simp [aliasSlots, writeAs, has]

def ColumnLike.aliased : ColumnLike → Bool
  | .column _ _ aliasName => !aliasName.isEmpty
  | .allColumns _ => false

@[simp] theorem writeAs_column (col : ColumnLike) : writeAs (columnSlots col) = col.aliased := by
  have hqualifier : ∀ table, writeAs (qualifierSlots table) = false := by
    intro table
    unfold qualifierSlots
    split_ifs
    · exact writeAs_slot (s := ".") (by decide) []
    · rfl
  cases col with
  | column name table aliasName => simp [columnSlots, hqualifier, ColumnLike.aliased]
  | allColumns table =>
    rw [columnSlots, writeAs_append, hqualifier, writeAs_slot (by decide)]
    rfl

@[simp] theorem writeAs_order (order : OrderBy) :
    writeAs (orderSlots order) = order.column.aliased := by
  have hdirection : (slot (directionText order.direction)).writesAs = false := by
    cases order.direction <;> decide
  simp [orderSlots, writeAs_slot hdirection]

@[simp] theorem writeAs_argument (fn : Aggregate) (col : ColumnLike) :
    writeAs (argumentSlots fn col) = col.aliased := by
  have hdistinct : ∀ distinct, writeAs (optionalSlots distinct [slot "DISTINCT "]) = false := by
    intro distinct
    cases distinct
    · rfl
    · exact writeAs_slot (by decide) []
  cases fn with
  | count distinct =>
    cases col with
    | column name table aliasName =>
      rw [argumentSlots, writeAs_append, hdistinct, writeAs_column, Bool.false_or]
      rintro _ ⟨⟩
    | allColumns table =>
      rw [argumentSlots, writeAs_append, hdistinct, writeAs_column, Bool.false_or]
      rfl
  | _ => exact writeAs_column col

@[simp] theorem writeAs_selectStart (distinct : Bool) :
    writeAs (selectStartSlots distinct) = false := by
  cases distinct <;> decide

@[simp] theorem writeAs_limit (limit offset : ℕ) : writeAs (limitSlots limit offset) = false := by
  simp (disch := decide) [limitSlots, writeAs_slot]

@[simp] theorem writeAs_insert (table : Table) (columns : List Text)
    (rows : List (List FieldValue)) : writeAs (insertSlots table columns rows) = false := by
  simp (disch := decide) [insertSlots, rowSlots, storedSlots, writeAs_slot]

@[simp] theorem writeAs_update (table : Table) (assignments : List (Text × FieldValue)) :
    writeAs (updateSlots table assignments) = false := by
  simp (disch := decide) [updateSlots, assignmentSlots, storedSlots, writeAs_slot]

@[simp] theorem writeAs_delete (table : Table) : writeAs (deleteSlots table) = false := by
  simp (disch := decide) [deleteSlots, writeAs_slot]

@[simp] theorem writeAs_createTable (table : SchemaTable) (ifNotExists : Bool) :
    writeAs (createTableSlots table ifNotExists) = false := by
  rcases table with (_ | table) | table <;>
    simp (disch := decide) [createTableSlots, createColumnsSlots, dynamicFieldSlots,
      staticFieldSlots, constraintSlots, writeAs_slot]

@[simp] theorem writeAs_dropTable (table : Table) (ifExists cascade : Bool) :
    writeAs (dropTableSlots table ifExists cascade) = false := by
  simp (disch := decide) [dropTableSlots, writeAs_slot]

/-! ### Trees whose aliases are in select lists -/

/-- The columns, literals, aggregates, CASE expressions and subqueries with an alias are
items of select lists; `listed` says whether the node itself is one. -/
def Node.aliasesListed (listed : Bool) : {k : Arity} → Node k → Bool
  | _, .column col => listed || !col.aliased
  | _, .literal _ _ aliasName => listed || aliasName.isEmpty
  | _, .nullLiteral | _, .paramPlaceholder => true
  | _, .binaryExpr _ left right => left.aliasesListed false && right.aliasesListed false
  | _, .unaryExpr _ operand => operand.aliasesListed false
  | _, .betweenExpr operand lower upper =>
      operand.aliasesListed false && lower.aliasesListed false && upper.aliasesListed false
  | _, .inListExpr operand values => operand.aliasesListed false && values.aliasesListed false
  | _, .subquery query aliasName =>
      query.aliasesListed false && (listed || aliasName.isEmpty)
  | _, .existsExpr query => query.aliasesListed false
  | _, .aggregateExpr _ col aliasName => !col.aliased && (listed || aliasName.isEmpty)
  | _, .selectExpr _ columns => columns.aliasesListed true
  | _, .fromTableExpr select _ _ => select.aliasesListed listed
  | _, .fromCteExpr select _ query _ => query.aliasesListed false && select.aliasesListed listed
  | _, .whereExpr query condition => query.aliasesListed listed && condition.aliasesListed false
  | _, .groupByColumnExpr query columns =>
      query.aliasesListed listed && columns.all fun col => !col.aliased
  | _, .groupByQueryExpr query criteria =>
      query.aliasesListed listed && criteria.aliasesListed false
  | _, .havingExpr query condition => query.aliasesListed listed && condition.aliasesListed false
  | _, .orderByExpr query orders =>
      query.aliasesListed listed && orders.all fun order => !order.column.aliased
  | _, .limitExpr query _ _ => query.aliasesListed listed
  | _, .joinExpr query onCondition _ _ _ =>
      query.aliasesListed listed && onCondition.aliasesListed false
  | _, .insertExpr _ _ _ | _, .updateExpr _ _ | _, .deleteExpr _ => true
  | _, .updateWhereExpr _ _ condition => condition.aliasesListed false
  | _, .deleteWhereExpr _ condition => condition.aliasesListed false
  | _, .setOpExpr left right _ => left.aliasesListed listed && right.aliasesListed listed
  | _, .caseExpr whens aliasName =>
      whens.aliasesListed false && (listed || aliasName.isEmpty)
  | _, .caseExprWithElse whens otherwise aliasName =>
      whens.aliasesListed false && otherwise.aliasesListed false && (listed || aliasName.isEmpty)
  | _, .cteExpr _ query _ => query.aliasesListed false
  | _, .createTableExpr _ _ | _, .dropTableExpr _ _ _ => true
  | _, .nil | _, .noWhen => true
  | _, .cons head tail => head.aliasesListed listed && tail.aliasesListed listed
  | _, .when condition value rest =>
      condition.aliasesListed false && value.aliasesListed false && rest.aliasesListed listed

theorem asAllowed_placed {k : Arity} (place : Place) (e : Node k) (isFirst : Bool) :
    AsAllowed (placed place e isFirst) ↔ e.aliasesListed place.allowsAs = true := by
  induction e generalizing place isFirst with
  | unaryExpr op operand ih =>
    have htext : (slot (unaryOpText op)).writesAs = false := by cases op <;> decide
    simp only [placed, Node.aliasesListed]
    split_ifs <;> simp [ih, writeAs_slot htext, Place.allowsAs]
  | binaryExpr op left right ihl ihr =>
    have htext : (slot (binaryOpText op)).writesAs = false := by cases op <;> decide
    simp (disch := decide) [placed, Node.aliasesListed, ihl, ihr, writeAs_slot, writeAs_slot htext,
      Place.allowsAs]
  | aggregateExpr fn col aliasName =>
    have htext : (slot (aggregateText fn)).writesAs = false := by
      cases fn with
      | count distinct => exact (by decide : (slot "COUNT(").writesAs = false)
      | _ => decide
    simp (disch := decide) [placed, Node.aliasesListed, writeAs_slot, writeAs_slot htext,
      Place.allowsAs]
  | joinExpr query onCondition table type aliasName ihq ihc =>
    have htext : (slot (joinText type)).writesAs = false := by cases type <;> decide
    simp (disch := decide) [placed, Node.aliasesListed, ihq, ihc, writeAs_slot, writeAs_slot htext,
      Place.allowsAs]
  | setOpExpr left right op ihl ihr =>
    have htext : (slot (setOpText op)).writesAs = false := by cases op <;> decide
    simp [placed, Node.aliasesListed, ihl, ihr, writeAs_slot htext]
  | _ =>
    simp (disch := decide) [placed, Node.aliasesListed, writeAs_slot, Place.allowsAs,
      and_assoc, *]

/-- Every `AS` of a query stands in a place that allows it exactly if all that has an
alias, apart from tables and common table expressions, is an item of a select list. -/
theorem as_allowed_iff (cfg : Setting) (e : Expression) :
    (compile cfg e).2 = fill cfg ((placed .statement e true).map Prod.fst) .fresh ∧
    (AsAllowed (placed .statement e true) ↔ e.aliasesListed false = true) := by
  refine ⟨?_, asAllowed_placed .statement e true⟩
  rw [compile_eq, visit_eq, placed_fst]

/-- `select(id.as("key")).from("users").group_by(id.as("key"))`. -/
def groupByAliased : Expression :=
  .groupByColumnExpr
    (.fromTableExpr
      (.selectExpr false (.cons (.column (.column (ascii "id") [] (ascii "key"))) .nil))
      (.name (ascii "users")) [])
    [.column (ascii "id") [] (ascii "key")]

theorem as_in_group_by :
    renderAll default (compile ⟨.inline, .lvalue, id⟩ groupByAliased).2.sql =
      ascii "SELECT \"id\" AS \"key\" FROM \"users\" GROUP BY \"id\" AS \"key\"" ∧
    (slot " AS ", .groupBy) ∈ placed .statement groupByAliased true ∧
    ¬AsAllowed (placed .statement groupByAliased true) := by
  have hmem : (slot " AS ", Place.groupBy) ∈ placed .statement groupByAliased true := by decide
  refine ⟨by decide, hmem, fun hallowed => ?_⟩
  exact absurd (hallowed _ hmem (by decide)) (by decide)

end Demiplane.Query

import Demiplane.Query.Expression
import Demiplane.Query.Params

/-!
`SqlGeneratorVisitor` and the overloads of `QueryVisitor::visit`. The text of the query
is kept as the sequence of pieces that were appended to it. The overloads for rvalues are
functions of their own (`visitRvalue`): they return what is left of the tree as well.
-/

namespace Demiplane.Query

open Text

inductive ParamMode where
  | inline
  | tuple
  | sink
  deriving DecidableEq, Repr

inductive ValueCategory where
  | lvalue
  | rvalue
  deriving DecidableEq, Repr

/-- What a parameter of the text stands for. The text itself does not show it. -/
inductive Origin where
  | literal (value : FieldValue)
  | stored (value : FieldValue)
  | placeholder
  deriving DecidableEq, Repr

inductive Piece where
  | text (s : String)
  | raw (t : Text)
  | identifier (name : Text)
  | number (n : ℕ)
  | value (v : FieldValue)
  | param (index : ℕ) (origin : Origin)
  deriving DecidableEq, Repr

def Piece.render (floats : FloatFormat) : Piece → Text
  | .text s => ascii s
  | .raw t => t
  | .identifier name => quoteIdentifier name
  | .number n => Gears.constexprToString n
  | .value v => formatValue floats v
  | .param index _ => placeholder index

structure Visitor where
  sql : List Piece
  sink : Params
  paramCount : ℕ
  deriving DecidableEq, Repr

/-- `residue` is what is left in a value that has been handed on as an rvalue. -/
structure Setting where
  mode : ParamMode
  category : ValueCategory
  residue : FieldValue → FieldValue

/-- What is left in a text: the same as in a value that holds it. -/
def Setting.residueText (cfg : Setting) (t : Text) : Text :=
  match cfg.residue (.string t) with
  | .string left => left
  | _ => []

abbrev Visit := StateM Visitor

def emit (p : Piece) : Visit Unit := modify fun v => { v with sql := v.sql ++ [p] }

/-- `sql_ += s`. -/
def append (s : String) : Visit Unit := emit (.text s)

def quote (name : Text) : Visit Unit := emit (.identifier name)

/-- What the loops over vectors do with the separator: none before the first element. -/
def separated {α : Type} (visitOne : α → Visit Unit) : List α → Visit Unit
  | [] => pure ()
  | [a] => visitOne a
  | a :: b :: rest => do
      visitOne a
      append ", "
      separated visitOne (b :: rest)

/-! ### Columns, tables and aliases -/

def visitTableName (tableName : Text) : Visit Unit := do
  if tableName ≠ [] then
    quote tableName

def visitTable : Table → Visit Unit
  | .schema (.dynamic none) => pure ()
  | .schema (.dynamic (some table)) => quote table.tableName
  | .schema (.static table) => visitTableName table.tableName
  | .name tableName => visitTableName tableName

def visitAlias (aliasName : Text) : Visit Unit := do
  if aliasName ≠ [] then
    append " AS "
    quote aliasName

def visitAllColumns (table : Text) : Visit Unit := do
  if table ≠ [] then
    visitTableName table
    append "."
  append "*"

def visitColumn : ColumnLike → Visit Unit
  | .column name table aliasName => do
      if table ≠ [] then
        visitTableName table
        append "."
      quote name
      visitAlias aliasName
  | .allColumns table => visitAllColumns table

def visitOrderBy (order : OrderBy) : Visit Unit := do
  visitColumn order.column
  append (match order.direction with
    | .asc => " ASC"
    | .desc => " DESC")

/-! ### Operators and clauses -/

def binaryOpText : BinaryOp → String
  | .equal => " = "
  | .notEqual => " != "
  | .less => " < "
  | .lessEqual => " <= "
  | .greater => " > "
  | .greaterEqual => " >= "
  | .and => " AND "
  | .or => " OR "
  | .like => " LIKE "
  | .notLike => " NOT LIKE "
  | .isIn => " IN "

def UnaryOp.isPostfix : UnaryOp → Bool
  | .not => false
  | .isNull | .isNotNull => true

def unaryOpText : UnaryOp → String
  | .not => "NOT "
  | .isNull => " IS NULL"
  | .isNotNull => " IS NOT NULL"

def joinText : JoinType → String
  | .inner => " INNER JOIN "
  | .left => " LEFT JOIN "
  | .right => " RIGHT JOIN "
  | .full => " FULL OUTER JOIN "
  | .cross => " CROSS JOIN "

def setOpText : SetOperation → String
  | .union => " UNION "
  | .unionAll => " UNION ALL "
  | .intersect => " INTERSECT "
  | .except => " EXCEPT "

def visitAggregate (fn : Aggregate) (col : ColumnLike) (aliasName : Text) : Visit Unit := do
  match fn with
  | .count distinct =>
      append "COUNT("
      if distinct then
        append "DISTINCT "
      match col with
      | .allColumns _ => visitAllColumns []
      | col => visitColumn col
  | .sum =>
      append "SUM("
      visitColumn col
  | .avg =>
      append "AVG("
      visitColumn col
  | .max =>
      append "MAX("
      visitColumn col
  | .min =>
      append "MIN("
      visitColumn col
  append ")"
  visitAlias aliasName

def visitSelectStart (distinct : Bool) : Visit Unit := do
  append "SELECT "
  if distinct then
    append "DISTINCT "

def visitLimit (limit offset : ℕ) : Visit Unit := do
  append " LIMIT "
  emit (.number limit)
  if 0 < offset then
    append " OFFSET "
    emit (.number offset)

def visitCteStart (recursive : Bool) (name : Text) : Visit Unit := do
  append "WITH "
  if recursive then
    append "RECURSIVE "
  quote name
  append " AS ("

/-! ### Tables with their columns -/

def visitDynamicField (field : DynamicFieldSchema) : Visit Unit := do
  quote field.name
  append " "
  emit (.raw field.dbType)
  if field.isPrimaryKey then
    append " PRIMARY KEY"
  if !field.isNullable && !field.isPrimaryKey then
    append " NOT NULL"
  if field.isUnique && !field.isPrimaryKey then
    append " UNIQUE"
  if field.defaultValue ≠ [] then
    append " DEFAULT "
    emit (.raw field.defaultValue)
  if field.isForeignKey ∧ field.foreignTable ≠ [] then
    append " REFERENCES "
    quote field.foreignTable
    append "("
    quote field.foreignColumn
    append ")"

def visitStaticField (field : StaticFieldSchema) : Visit Unit := do
  quote field.name
  append " "
  emit (.raw field.sqlType)
  if field.isPrimaryKey then
    append " PRIMARY KEY"
  if !field.isNullable && !field.isPrimaryKey then
    append " NOT NULL"
  if field.isUnique && !field.isPrimaryKey then
    append " UNIQUE"

def visitCreateTableColumns : SchemaTable → Visit Unit
  | .dynamic none => pure ()
  | .dynamic (some table) => do
      append " ("
      separated visitDynamicField table.fields
      append ")"
  | .static table => do
      append " ("
      separated visitStaticField table.fields
      append ")"

def visitCreateTable (table : SchemaTable) (ifNotExists : Bool) : Visit Unit := do
  append "CREATE TABLE "
  if ifNotExists then
    append "IF NOT EXISTS "
  visitTable (.schema table)
  visitCreateTableColumns table

def visitDropTable (table : Table) (ifExists cascade : Bool) : Visit Unit := do
  append "DROP TABLE "
  if ifExists then
    append "IF EXISTS "
  visitTable table
  if cascade then
    append " CASCADE"

/-! ### Values -/

section

variable (cfg : Setting)

def visitParamPlaceholder : Visit Unit := do
  modify fun v => { v with paramCount := v.paramCount + 1 }
  emit (.param (← get).paramCount .placeholder)

/-- Both overloads of `visit_value_impl`; the one for rvalues hands the value on to an
overload of `push` that copies it. -/
def visitValue (origin : FieldValue → Origin) (value : FieldValue) : Visit Unit := do
  match cfg.mode with
  | .inline => emit (.value value)
  | .tuple =>
      modify fun v => { v with paramCount := v.paramCount + 1 }
      emit (.param (← get).paramCount (origin value))
  | .sink =>
      let (sink, idx) := (← get).sink.push value
      modify fun v => { v with sink := sink }
      emit (.param idx (origin value))

def captureParam (value : FieldValue) : List FieldValue :=
  if cfg.mode = .tuple then [value] else []

def catParams (left right : List FieldValue) : List FieldValue :=
  if cfg.mode = .tuple then left ++ right else []

def visitLiteral (value : FieldValue) (aliasName : Text) : Visit (List FieldValue) := do
  visitValue cfg .literal value
  visitAlias aliasName
  return captureParam cfg value

def visitInsert (table : Table) (columns : List Text) (rows : List (List FieldValue)) :
    Visit Unit := do
  append "INSERT INTO "
  visitTable table
  append " ("
  separated quote columns
  append ") VALUES "
  separated (fun row => do
    append "("
    separated (visitValue cfg .stored) row
    append ")") rows

def visitUpdate (table : Table) (assignments : List (Text × FieldValue)) : Visit Unit := do
  append "UPDATE "
  visitTable table
  append " SET "
  separated (fun assignment => do
    quote assignment.1
    append " = "
    visitValue cfg .stored assignment.2) assignments

def visitDelete (table : Table) : Visit Unit := do
  append "DELETE FROM "
  visitTable table

/-! ### Trees -/

/-- The overloads for constant lvalues. `isFirst` is the argument of `visit_tuple_element` for the
first element of what is left of a tuple. -/
def visit : {k : Arity} → Node k → (isFirst : Bool) → Visit (List FieldValue)
  | _, .column col, _ => do
      visitColumn col
      return []
  | _, .literal _ value aliasName, _ => visitLiteral cfg value aliasName
  | _, .nullLiteral, _ => do
      append "NULL"
      return []
  | _, .paramPlaceholder, _ => do
      visitParamPlaceholder
      return []
  | _, .binaryExpr op left right, _ => do
      append "("
      let lp ← visit left true
      append (binaryOpText op)
      let rp ← visit right true
      append ")"
      return catParams cfg lp rp
  | _, .unaryExpr op operand, _ => do
      if op.isPostfix then
        let p ← visit operand true
        append (unaryOpText op)
        return p
      else
        append (unaryOpText op)
        visit operand true
  | _, .betweenExpr operand lower upper, _ => do
      let op ← visit operand true
      append " BETWEEN "
      let lp ← visit lower true
      append " AND "
      let up ← visit upper true
      return catParams cfg (catParams cfg op lp) up
  | _, .inListExpr operand values, _ => do
      let op ← visit operand true
      append " IN ("
      let vp ← visit values true
      append ")"
      return catParams cfg op vp
  | _, .subquery query aliasName, _ => do
      append "("
      let qp ← visit query true
      append ")"
      visitAlias aliasName
      return qp
  | _, .existsExpr query, _ => do
      append "EXISTS ("
      let qp ← visit query true
      append ")"
      return qp
  | _, .aggregateExpr fn col aliasName, _ => do
      visitAggregate fn col aliasName
      return []
  | _, .selectExpr distinct columns, _ => do
      visitSelectStart distinct
      visit columns true
  | _, .fromTableExpr select table aliasName, _ => do
      let sp ← visit select true
      append " FROM "
      visitTable table
      visitAlias aliasName
      return sp
  | _, .fromCteExpr select name query recursive, _ => do
      visitCteStart recursive name
      let cp ← visit query true
      append ")"
      append " "
      let sp ← visit select true
      append " FROM "
      visitTableName name
      return catParams cfg cp sp
  | _, .whereExpr query condition, _ => do
      let qp ← visit query true
      append " WHERE "
      let cp ← visit condition true
      return catParams cfg qp cp
  | _, .groupByColumnExpr query columns, _ => do
      let qp ← visit query true
      append " GROUP BY "
      separated visitColumn columns
      return catParams cfg qp []
  | _, .groupByQueryExpr query criteria, _ => do
      let qp ← visit query true
      append " GROUP BY "
      let cp ← visit criteria true
      return catParams cfg qp cp
  | _, .havingExpr query condition, _ => do
      let qp ← visit query true
      append " HAVING "
      let cp ← visit condition true
      return catParams cfg qp cp
  | _, .orderByExpr query orders, _ => do
      let qp ← visit query true
      append " ORDER BY "
      separated visitOrderBy orders
      return catParams cfg qp []
  | _, .limitExpr query count offset, _ => do
      let qp ← visit query true
      visitLimit count offset
      return qp
  | _, .joinExpr query onCondition table type aliasName, _ => do
      let qp ← visit query true
      append (joinText type)
      visitTable table
      visitAlias aliasName
      append " ON "
      let cp ← visit onCondition true
      return catParams cfg qp cp
  | _, .insertExpr table columns rows, _ => do
      visitInsert cfg table columns rows
      return []
  | _, .updateExpr table assignments, _ => do
      visitUpdate cfg table assignments
      return []
  | _, .updateWhereExpr table assignments condition, _ => do
      visitUpdate cfg table assignments
      append " WHERE "
      let cp ← visit condition true
      return catParams cfg [] cp
  | _, .deleteExpr table, _ => do
      visitDelete table
      return []
  | _, .deleteWhereExpr table condition, _ => do
      visitDelete table
      append " WHERE "
      let cp ← visit condition true
      return catParams cfg [] cp
  | _, .setOpExpr left right op, _ => do
      let lp ← visit left true
      append (setOpText op)
      let rp ← visit right true
      return catParams cfg lp rp
  | _, .caseExpr whens aliasName, _ => do
      append "CASE"
      let wp ← visit whens true
      append " END"
      visitAlias aliasName
      return wp
  | _, .caseExprWithElse whens otherwise aliasName, _ => do
      append "CASE"
      let wp ← visit whens true
      append " ELSE "
      let ep ← visit otherwise true
      append " END"
      visitAlias aliasName
      return catParams cfg wp ep
  | _, .cteExpr name query recursive, _ => do
      visitCteStart recursive name
      let qp ← visit query true
      append ")"
      append " "
      return qp
  | _, .createTableExpr table ifNotExists, _ => do
      visitCreateTable table ifNotExists
      return []
  | _, .dropTableExpr table ifExists cascade, _ => do
      visitDropTable table ifExists cascade
      return []
  | _, .nil, _ => return []
  | _, .cons head tail, isFirst => do
      if !isFirst then
        append ", "
      let hp ← visit head true
      let tp ← visit tail false
      return catParams cfg hp tp
  | _, .noWhen, _ => return []
  | _, .when condition value rest, _ => do
      append " WHEN "
      let cp ← visit condition true
      append " THEN "
      let vp ← visit value true
      let rp ← visit rest true
      return catParams cfg (catParams cfg cp vp) rp

/-! ### Rvalues -/

/-- The value is handed on to an overload of `push` for rvalues. -/
def visitValueRvalue (origin : FieldValue → Origin) (value : FieldValue) : Visit FieldValue := do
  visitValue cfg origin value
  return cfg.residue value

/-- The value is handed on when it is visited, unless it has to be converted first or is
captured afterwards. -/
def visitLiteralRvalue (type : LiteralType) (value : FieldValue) (aliasName : Text) :
    Visit (List FieldValue × Expression) := do
  let left ←
    if type = .fieldValue ∧ cfg.mode ≠ .tuple then
      visitValueRvalue cfg .literal value
    else do
      visitValue cfg .literal value
      pure value
  visitAlias aliasName
  return (captureParam cfg left, .literal type
    (if cfg.mode = .tuple then cfg.residue left else left) (cfg.residueText aliasName))

/-- The loops over vectors that are handed on as rvalues, with what is left of the elements. -/
def separatedRvalue {α : Type} (visitOne : α → Visit α) : List α → Visit (List α)
  | [] => return []
  | [a] => return [← visitOne a]
  | a :: b :: rest => do
      let a ← visitOne a
      append ", "
      let rest ← separatedRvalue visitOne (b :: rest)
      return a :: rest

def quoteRvalue (name : Text) : Visit Text := do
  quote name
  return cfg.residueText name

def visitRowRvalue (row : List FieldValue) : Visit (List FieldValue) := do
  append "("
  let row ← separatedRvalue (visitValueRvalue cfg .stored) row
  append ")"
  return row

def visitInsertRvalue (table : Table) (columns : List Text) (rows : List (List FieldValue)) :
    Visit Expression := do
  append "INSERT INTO "
  visitTable table
  append " ("
  let columns ← separatedRvalue (quoteRvalue cfg) columns
  append ") VALUES "
  let rows ← separatedRvalue (visitRowRvalue cfg) rows
  return .insertExpr table columns rows

def visitAssignmentRvalue (assignment : Text × FieldValue) : Visit (Text × FieldValue) := do
  quote assignment.1
  append " = "
  let value ← visitValueRvalue cfg .stored assignment.2
  return (assignment.1, value)

def visitUpdateRvalue (table : Table) (assignments : List (Text × FieldValue)) :
    Visit (List (Text × FieldValue)) := do
  append "UPDATE "
  visitTable table
  append " SET "
  separatedRvalue (visitAssignmentRvalue cfg) assignments

/-- The overloads for rvalues, and those for constant lvalues where there are no others.
They return what is left of the tree besides the parameters, and read what comes after a
subtree from what is left. -/
def visitRvalue : {k : Arity} → Node k → (isFirst : Bool) → Visit (List FieldValue × Node k)
  | _, .literal type value aliasName, _ => visitLiteralRvalue cfg type value aliasName
  | _, .binaryExpr op left right, _ => do
      append "("
      let (lp, left) ← visitRvalue left true
      append (binaryOpText op)
      let (rp, right) ← visitRvalue right true
      append ")"
      return (catParams cfg lp rp, .binaryExpr op left right)
  | _, .unaryExpr op operand, _ => do
      if op.isPostfix then
        let (p, operand) ← visitRvalue operand true
        append (unaryOpText op)
        return (p, .unaryExpr op operand)
      else
        append (unaryOpText op)
        let (p, operand) ← visitRvalue operand true
        return (p, .unaryExpr op operand)
  | _, .betweenExpr operand lower upper, _ => do
      let (op, operand) ← visitRvalue operand true
      append " BETWEEN "
      let (lp, lower) ← visitRvalue lower true
      append " AND "
      let (up, upper) ← visitRvalue upper true
      return (catParams cfg (catParams cfg op lp) up, .betweenExpr operand lower upper)
  | _, .inListExpr operand values, _ => do
      let (op, operand) ← visitRvalue operand true
      append " IN ("
      let (vp, values) ← visitRvalue values true
      append ")"
      return (catParams cfg op vp, .inListExpr operand values)
  | _, .subquery query aliasName, _ => do
      append "("
      let (qp, query) ← visitRvalue query true
      append ")"
      visitAlias aliasName
      return (qp, .subquery query aliasName)
  | _, .existsExpr query, _ => do
      append "EXISTS ("
      let (qp, query) ← visitRvalue query true
      append ")"
      return (qp, .existsExpr query)
  | _, .selectExpr distinct columns, _ => do
      visitSelectStart distinct
      let (cp, columns) ← visitRvalue columns true
      return (cp, .selectExpr distinct columns)
  | _, .fromTableExpr select table aliasName, _ => do
      let (sp, select) ← visitRvalue select true
      append " FROM "
      visitTable table
      visitAlias aliasName
      return (sp, .fromTableExpr select table aliasName)
  | _, .fromCteExpr select name query recursive, _ => do
      -- the CTE is handed on as a whole; its name is copied before that
      let cteName := name
      visitCteStart recursive name
      let (cp, query) ← visitRvalue query true
      append ")"
      append " "
      let name := cfg.residueText name
      let (sp, select) ← visitRvalue select true
      append " FROM "
      visitTableName cteName
      return (catParams cfg cp sp, .fromCteExpr select name query recursive)
  | _, .whereExpr query condition, _ => do
      let (qp, query) ← visitRvalue query true
      append " WHERE "
      let (cp, condition) ← visitRvalue condition true
      return (catParams cfg qp cp, .whereExpr query condition)
  | _, .groupByColumnExpr query columns, _ => do
      let (qp, query) ← visitRvalue query true
      append " GROUP BY "
      separated visitColumn columns
      return (catParams cfg qp [], .groupByColumnExpr query columns)
  | _, .groupByQueryExpr query criteria, _ => do
      let (qp, query) ← visitRvalue query true
      append " GROUP BY "
      let (cp, criteria) ← visitRvalue criteria true
      return (catParams cfg qp cp, .groupByQueryExpr query criteria)
  | _, .havingExpr query condition, _ => do
      let (qp, query) ← visitRvalue query true
      append " HAVING "
      let (cp, condition) ← visitRvalue condition true
      return (catParams cfg qp cp, .havingExpr query condition)
  | _, .orderByExpr query orders, _ => do
      let (qp, query) ← visitRvalue query true
      append " ORDER BY "
      separated visitOrderBy orders
      return (catParams cfg qp [], .orderByExpr query orders)
  | _, .limitExpr query count offset, _ => do
      let (qp, query) ← visitRvalue query true
      visitLimit count offset
      return (qp, .limitExpr query count offset)
  | _, .joinExpr query onCondition table type aliasName, _ => do
      let (qp, query) ← visitRvalue query true
      append (joinText type)
      visitTable table
      visitAlias aliasName
      append " ON "
      let (cp, onCondition) ← visitRvalue onCondition true
      return (catParams cfg qp cp, .joinExpr query onCondition table type aliasName)
  | _, .insertExpr table columns rows, _ => do
      let left ← visitInsertRvalue cfg table columns rows
      return ([], left)
  | _, .updateExpr table assignments, _ => do
      let assignments ← visitUpdateRvalue cfg table assignments
      return ([], .updateExpr table assignments)
  | _, .updateWhereExpr table assignments condition, _ => do
      let assignments ← visitUpdateRvalue cfg table assignments
      append " WHERE "
      let (cp, condition) ← visitRvalue condition true
      return (catParams cfg [] cp, .updateWhereExpr table assignments condition)
  | _, .deleteWhereExpr table condition, _ => do
      visitDelete table
      append " WHERE "
      let (cp, condition) ← visitRvalue condition true
      return (catParams cfg [] cp, .deleteWhereExpr table condition)
  | _, .setOpExpr left right op, _ => do
      let (lp, left) ← visitRvalue left true
      append (setOpText op)
      let (rp, right) ← visitRvalue right true
      return (catParams cfg lp rp, .setOpExpr left right op)
  | _, .caseExpr whens aliasName, _ => do
      append "CASE"
      let (wp, whens) ← visitRvalue whens true
      append " END"
      visitAlias aliasName
      return (wp, .caseExpr whens aliasName)
  | _, .caseExprWithElse whens otherwise aliasName, _ => do
      append "CASE"
      let (wp, whens) ← visitRvalue whens true
      append " ELSE "
      let (ep, otherwise) ← visitRvalue otherwise true
      append " END"
      visitAlias aliasName
      return (catParams cfg wp ep, .caseExprWithElse whens otherwise aliasName)
  | _, .cteExpr name query recursive, _ => do
      visitCteStart recursive name
      let (qp, query) ← visitRvalue query true
      append ")"
      append " "
      return (qp, .cteExpr name query recursive)
  | _, .cons head tail, isFirst => do
      if !isFirst then
        append ", "
      let (hp, head) ← visitRvalue head true
      let (tp, tail) ← visitRvalue tail false
      return (catParams cfg hp tp, .cons head tail)
  | _, .when condition value rest, _ => do
      append " WHEN "
      let (cp, condition) ← visitRvalue condition true
      append " THEN "
      let (vp, value) ← visitRvalue value true
      let (rp, rest) ← visitRvalue rest true
      return (catParams cfg (catParams cfg cp vp) rp, .when condition value rest)
  | _, e, isFirst => do
      let p ← visit cfg e isFirst
      return (p, e)

end

/-! ### Compilation -/

def Visitor.fresh : Visitor := ⟨[], .empty, 0⟩

/-- The visitor that a query leaves, and the parameters that it returns. -/
def compile (cfg : Setting) (e : Expression) : List FieldValue × Visitor :=
  match cfg.category with
  | .lvalue => (visit cfg e true).run .fresh
  | .rvalue => (Prod.fst <$> visitRvalue cfg e true).run .fresh

def renderAll (floats : FloatFormat) (pieces : List Piece) : Text :=
  pieces.flatMap (Piece.render floats)

/-- `sql` is the text as the pieces that it was put together from. -/
structure CompiledStaticQuery where
  sql : List Piece
  params : List FieldValue
  deriving DecidableEq, Repr

structure CompiledDynamicQuery where
  sql : List Piece
  packet : Params
  deriving DecidableEq, Repr

/-- An `InlineString` of `maxLen` bytes throws when the text does not fit. -/
def compileStatic (floats : FloatFormat) (cfg : Setting) (maxLen : ℕ) (e : Expression) :
    Option CompiledStaticQuery :=
  let (params, visitor) := compile cfg e
  if (renderAll floats visitor.sql).length ≤ maxLen then some ⟨visitor.sql, params⟩ else none

/-- `compile_dynamic`. In Inline mode there is no packet, and nothing has been pushed. -/
def compileDynamic (cfg : Setting) (e : Expression) : CompiledDynamicQuery :=
  let (_, visitor) := compile cfg e
  ⟨visitor.sql, visitor.sink⟩

end Demiplane.Query

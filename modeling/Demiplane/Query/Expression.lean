import Demiplane.Query.Dialect

/-!
Query expressions. A C++ expression is an object whose type spells out the tree; the
tree is all that the compiler reads of it. Which node may stand where is left to the
concepts of the C++ code except for columns, which the overloads themselves ask for:
the compiler does the same thing to a tree that the concepts refuse.
-/

namespace Demiplane.Query

/-! ### Operators -/

inductive BinaryOp where
  | equal
  | notEqual
  | less
  | lessEqual
  | greater
  | greaterEqual
  | and
  | or
  | like
  | notLike
  | isIn
  deriving DecidableEq, Repr

inductive UnaryOp where
  | not
  | isNull
  | isNotNull
  deriving DecidableEq, Repr

inductive JoinType where
  | inner
  | left
  | right
  | full
  | cross
  deriving DecidableEq, Repr

inductive SetOperation where
  | union
  | unionAll
  | intersect
  | except
  deriving DecidableEq, Repr

inductive OrderDirection where
  | asc
  | desc
  deriving DecidableEq, Repr

/-- `distinct` is the flag of `CountExpr`. -/
inductive Aggregate where
  | count (distinct : Bool)
  | sum
  | avg
  | max
  | min
  deriving DecidableEq, Repr

/-! ### Columns and tables -/

/-- `Column` and `TypedColumn` are written in the same way. -/
inductive ColumnLike where
  | column (name table aliasName : Text)
  | allColumns (table : Text)
  deriving DecidableEq, Repr

structure OrderBy where
  column : ColumnLike
  direction : OrderDirection
  deriving DecidableEq, Repr

/-- What a query reads of a `DynamicFieldSchema`. -/
structure DynamicFieldSchema where
  name : Text
  dbType : Text
  isNullable : Bool
  isPrimaryKey : Bool
  isForeignKey : Bool
  isUnique : Bool
  foreignTable : Text
  foreignColumn : Text
  defaultValue : Text
  deriving DecidableEq, Repr

structure DynamicTable where
  tableName : Text
  fields : List DynamicFieldSchema
  deriving DecidableEq, Repr

/-- `sqlType` is what `sql_type_for` gives for the type of the field. -/
structure StaticFieldSchema where
  name : Text
  sqlType : Text
  isNullable : Bool
  isPrimaryKey : Bool
  isUnique : Bool
  deriving DecidableEq, Repr

structure StaticTable where
  tableName : Text
  fields : List StaticFieldSchema
  deriving DecidableEq, Repr

/-- A table with a schema; a `DynamicTablePtr` may be null. -/
inductive SchemaTable where
  | dynamic (table : Option DynamicTable)
  | static (table : StaticTable)
  deriving DecidableEq, Repr

inductive Table where
  | schema (table : SchemaTable)
  | name (tableName : Text)
  deriving DecidableEq, Repr

/-! ### Trees -/

/-- The type parameter of `Literal`: `FieldValue` itself, or a type that converts to it. -/
inductive LiteralType where
  | fieldValue
  | other
  deriving DecidableEq, Repr

/-- Expressions, tuples of expressions, and the tuples of a CASE's clauses. -/
inductive Arity where
  | expression
  | tuple
  | whenClauses
  deriving DecidableEq, Repr

inductive Node : Arity → Type where
  | column (col : ColumnLike) : Node .expression
  | literal (type : LiteralType) (value : FieldValue) (aliasName : Text) : Node .expression
  | nullLiteral : Node .expression
  | paramPlaceholder : Node .expression
  | binaryExpr (op : BinaryOp) (left right : Node .expression) : Node .expression
  | unaryExpr (op : UnaryOp) (operand : Node .expression) : Node .expression
  | betweenExpr (operand lower upper : Node .expression) : Node .expression
  | inListExpr (operand : Node .expression) (values : Node .tuple) : Node .expression
  | subquery (query : Node .expression) (aliasName : Text) : Node .expression
  | existsExpr (query : Node .expression) : Node .expression
  | aggregateExpr (fn : Aggregate) (col : ColumnLike) (aliasName : Text) : Node .expression
  | selectExpr (distinct : Bool) (columns : Node .tuple) : Node .expression
  | fromTableExpr (select : Node .expression) (table : Table) (aliasName : Text) : Node .expression
  | fromCteExpr (select : Node .expression) (name : Text) (query : Node .expression)
      (recursive : Bool) : Node .expression
  | whereExpr (query condition : Node .expression) : Node .expression
  | groupByColumnExpr (query : Node .expression) (columns : List ColumnLike) : Node .expression
  | groupByQueryExpr (query criteria : Node .expression) : Node .expression
  | havingExpr (query condition : Node .expression) : Node .expression
  | orderByExpr (query : Node .expression) (orders : List OrderBy) : Node .expression
  | limitExpr (query : Node .expression) (count offset : ℕ) : Node .expression
  | joinExpr (query onCondition : Node .expression) (table : Table) (type : JoinType)
      (aliasName : Text) : Node .expression
  | insertExpr (table : Table) (columns : List Text) (rows : List (List FieldValue)) :
      Node .expression
  | updateExpr (table : Table) (assignments : List (Text × FieldValue)) : Node .expression
  | updateWhereExpr (table : Table) (assignments : List (Text × FieldValue))
      (condition : Node .expression) : Node .expression
  | deleteExpr (table : Table) : Node .expression
  | deleteWhereExpr (table : Table) (condition : Node .expression) : Node .expression
  | setOpExpr (left right : Node .expression) (op : SetOperation) : Node .expression
  | caseExpr (whens : Node .whenClauses) (aliasName : Text) : Node .expression
  | caseExprWithElse (whens : Node .whenClauses) (otherwise : Node .expression) (aliasName : Text) :
      Node .expression
  | cteExpr (name : Text) (query : Node .expression) (recursive : Bool) : Node .expression
  | createTableExpr (table : SchemaTable) (ifNotExists : Bool) : Node .expression
  | dropTableExpr (table : Table) (ifExists cascade : Bool) : Node .expression
  | nil : Node .tuple
  | cons (head : Node .expression) (tail : Node .tuple) : Node .tuple
  | noWhen : Node .whenClauses
  | when (condition value : Node .expression) (rest : Node .whenClauses) : Node .whenClauses

abbrev Expression := Node .expression

/-- Some expression of the tree satisfies `p`. -/
def Node.any (p : Expression → Bool) : {k : Arity} → Node k → Bool
  | _, .column col => p (.column col)
  | _, .literal type value aliasName => p (.literal type value aliasName)
  | _, .nullLiteral => p .nullLiteral
  | _, .paramPlaceholder => p .paramPlaceholder
  | _, .binaryExpr op left right => p (.binaryExpr op left right) || left.any p || right.any p
  | _, .unaryExpr op operand => p (.unaryExpr op operand) || operand.any p
  | _, .betweenExpr operand lower upper =>
      p (.betweenExpr operand lower upper) || operand.any p || lower.any p || upper.any p
  | _, .inListExpr operand values => p (.inListExpr operand values) || operand.any p || values.any p
  | _, .subquery query aliasName => p (.subquery query aliasName) || query.any p
  | _, .existsExpr query => p (.existsExpr query) || query.any p
  | _, .aggregateExpr fn col aliasName => p (.aggregateExpr fn col aliasName)
  | _, .selectExpr distinct columns => p (.selectExpr distinct columns) || columns.any p
  | _, .fromTableExpr select table aliasName =>
      p (.fromTableExpr select table aliasName) || select.any p
  | _, .fromCteExpr select name query recursive =>
      p (.fromCteExpr select name query recursive) || select.any p || query.any p
  | _, .whereExpr query condition =>
      p (.whereExpr query condition) || query.any p || condition.any p
  | _, .groupByColumnExpr query columns => p (.groupByColumnExpr query columns) || query.any p
  | _, .groupByQueryExpr query criteria =>
      p (.groupByQueryExpr query criteria) || query.any p || criteria.any p
  | _, .havingExpr query condition =>
      p (.havingExpr query condition) || query.any p || condition.any p
  | _, .orderByExpr query orders => p (.orderByExpr query orders) || query.any p
  | _, .limitExpr query count offset => p (.limitExpr query count offset) || query.any p
  | _, .joinExpr query onCondition table type aliasName =>
      p (.joinExpr query onCondition table type aliasName) || query.any p || onCondition.any p
  | _, .insertExpr table columns rows => p (.insertExpr table columns rows)
  | _, .updateExpr table assignments => p (.updateExpr table assignments)
  | _, .updateWhereExpr table assignments condition =>
      p (.updateWhereExpr table assignments condition) || condition.any p
  | _, .deleteExpr table => p (.deleteExpr table)
  | _, .deleteWhereExpr table condition => p (.deleteWhereExpr table condition) || condition.any p
  | _, .setOpExpr left right op => p (.setOpExpr left right op) || left.any p || right.any p
  | _, .caseExpr whens aliasName => p (.caseExpr whens aliasName) || whens.any p
  | _, .caseExprWithElse whens otherwise aliasName =>
      p (.caseExprWithElse whens otherwise aliasName) || whens.any p || otherwise.any p
  | _, .cteExpr name query recursive => p (.cteExpr name query recursive) || query.any p
  | _, .createTableExpr table ifNotExists => p (.createTableExpr table ifNotExists)
  | _, .dropTableExpr table ifExists cascade => p (.dropTableExpr table ifExists cascade)
  | _, .nil => false
  | _, .cons head tail => head.any p || tail.any p
  | _, .noWhen => false
  | _, .when condition value rest => condition.any p || value.any p || rest.any p

def Node.isCreateTable : Expression → Bool
  | .createTableExpr _ _ => true
  | _ => false

/-- There is a CREATE TABLE in the tree. -/
def Node.createsTable {k : Arity} (e : Node k) : Bool := e.any Node.isCreateTable

end Demiplane.Query

import Demiplane.Query.Template
import Demiplane.Text.Columns

/-!
Tables whose columns are types. A column is declared with a C++ type, a name and a pack of
constraints. `CREATE TABLE` writes the SQL type that the C++ type is mapped to and the flags,
whatever else the pack declares; the loop for dynamic tables writes all of it. Both texts are
compared column by column: the quotation marks of the names keep the columns apart.
-/

namespace Demiplane.Query

open Text Sql.Lexer

/-! ### Declarations -/

/-- The types that have a `SqlTypeMapping` for PostgreSQL. -/
inductive CppType where
  | bool
  | char
  | int16
  | int32
  | int64
  | uint16
  | uint32
  | uint64
  | float
  | double
  | string
  | stringView
  | bytes
  | byteSpan
  deriving DecidableEq, Repr

def sqlTypeFor : CppType → Text
  | .bool => ascii "BOOLEAN"
  | .char => ascii "CHAR(1)"
  | .int16 => ascii "SMALLINT"
  | .int32 => ascii "INTEGER"
  | .int64 => ascii "BIGINT"
  | .uint16 => ascii "INTEGER"
  | .uint32 => ascii "BIGINT"
  | .uint64 => ascii "NUMERIC(20,0)"
  | .float => ascii "REAL"
  | .double => ascii "DOUBLE PRECISION"
  | .string => ascii "TEXT"
  | .stringView => ascii "TEXT"
  | .bytes => ascii "BYTEA"
  | .byteSpan => ascii "BYTEA"

inductive Constraint where
  | primaryKey
  | notNull
  | unique
  | indexed
  | foreignKey (table column : Text)
  | default (value : Text)
  | maxLength (n : ℕ)
  | dbType (sqlType : Text)
  deriving DecidableEq, Repr

/-- `extract_foreign_key`: the first one of the pack. -/
def extractForeignKey (cs : List Constraint) : Option (Text × Text) :=
  cs.findSome? fun
    | .foreignKey table column => some (table, column)
    | _ => none

def extractDefault (cs : List Constraint) : Option Text :=
  cs.findSome? fun
    | .default value => some value
    | _ => none

def extractDbType (cs : List Constraint) : Option Text :=
  cs.findSome? fun
    | .dbType sqlType => some sqlType
    | _ => none

/-- The parameters of the template `StaticFieldSchema`. -/
structure StaticField where
  cppType : CppType
  name : Text
  constraints : List Constraint
  deriving DecidableEq, Repr

namespace StaticField

def isPrimaryKey (f : StaticField) : Bool := f.constraints.contains .primaryKey

def isNullable (f : StaticField) : Bool := !f.constraints.contains .notNull

def isUnique (f : StaticField) : Bool := f.constraints.contains .unique

/-- What `CREATE TABLE` reads of it. -/
def schema (f : StaticField) : StaticFieldSchema where
  name := f.name
  sqlType := sqlTypeFor f.cppType
  isNullable := f.isNullable
  isPrimaryKey := f.isPrimaryKey
  isUnique := f.isUnique

/-- The field of a dynamic table that carries the same. -/
def dynamicSchema (f : StaticField) : DynamicFieldSchema where
  name := f.name
  dbType := (extractDbType f.constraints).getD (sqlTypeFor f.cppType)
  isNullable := f.isNullable
  isPrimaryKey := f.isPrimaryKey
  isForeignKey := (extractForeignKey f.constraints).isSome
  isUnique := f.isUnique
  foreignTable := (extractForeignKey f.constraints).elim [] (·.1)
  foreignColumn := (extractForeignKey f.constraints).elim [] (·.2)
  defaultValue := (extractDefault f.constraints).getD []

/-- Nothing is declared that only the loop for dynamic tables writes. -/
structure Mapped (f : StaticField) : Prop where
  noDefault : ∀ value, extractDefault f.constraints = some value → value = []
  noReference : ∀ table column,
    extractForeignKey f.constraints = some (table, column) → table = []
  dbType_eq : ∀ sqlType, extractDbType f.constraints = some sqlType → sqlType = sqlTypeFor f.cppType

end StaticField

/-- `CREATE TABLE` of a static table. -/
def createStatic (tableName : Text) (fields : List StaticField) (ifNotExists : Bool) : Expression :=
  .createTableExpr (.static ⟨tableName, fields.map StaticField.schema⟩) ifNotExists

/-- `CREATE TABLE` of the dynamic table with the same name and fields that carry the same. -/
def createDynamic (tableName : Text) (fields : List StaticField) (ifNotExists : Bool) :
    Expression :=
  .createTableExpr (.dynamic (some ⟨tableName, fields.map StaticField.dynamicSchema⟩)) ifNotExists

/-! ### Texts without holes -/

def Slot.piece? : Slot → Option Piece
  | .fixed p => some p.piece
  | .hole _ => none

/-- The text of slots that are all filled. -/
def slotsText (floats : FloatFormat) (slots : List Slot) : Text :=
  renderAll floats (slots.filterMap Slot.piece?)

section

variable (floats : FloatFormat)

theorem fill_sql_of_holes (cfg : Setting) {slots : List Slot} (h : holes slots = [])
    (v : Visitor) : (fill cfg slots v).sql = v.sql ++ slots.filterMap Slot.piece? := by
  induction slots generalizing v with
  | nil => simp
  | cons s slots ih =>
    cases s with
    | fixed p =>
      rw [fill_cons, ih h]
      exact List.append_assoc v.sql [p.piece] _
    | hole origin => cases h

theorem renderAll_compile (cfg : Setting) {e : Expression} (h : holes (template e true) = []) :
    renderAll floats (compile cfg e).2.sql = slotsText floats (template e true) := by
  rw [compile_eq, visit_eq, fill_sql_of_holes cfg h]
  rfl

@[simp] theorem slotsText_nil : slotsText floats [] = [] := rfl

@[simp] theorem slotsText_append (slots more : List Slot) :
    slotsText floats (slots ++ more) = slotsText floats slots ++ slotsText floats more := by
  simp [slotsText, renderAll]

@[simp] theorem slotsText_slot (s : String) (slots : List Slot) :
    slotsText floats (slot s :: slots) = ascii s ++ slotsText floats slots := rfl

@[simp] theorem slotsText_name (name : Text) (slots : List Slot) :
    slotsText floats (nameSlot name :: slots) = quoteIdentifier name ++ slotsText floats slots :=
  rfl

@[simp] theorem slotsText_raw (t : Text) (slots : List Slot) :
    slotsText floats (.fixed (.raw t) :: slots) = t ++ slotsText floats slots := rfl

@[simp] theorem slotsText_optional (present : Bool) (slots : List Slot) :
    slotsText floats (optionalSlots present slots) =
      if present then slotsText floats slots else [] := by
  unfold optionalSlots
  split_ifs <;> rfl

end

/-! ### The texts of the columns -/

/-- What both loops write behind the type. -/
def flagsText (isNullable isPrimaryKey isUnique : Bool) : Text :=
  (if isPrimaryKey then ascii " PRIMARY KEY" else []) ++
  (if !isNullable && !isPrimaryKey then ascii " NOT NULL" else []) ++
  (if isUnique && !isPrimaryKey then ascii " UNIQUE" else [])

/-- What only the loop for dynamic tables writes. -/
def defaultText (value : Text) : Text := if value ≠ [] then ascii " DEFAULT " ++ value else []

def referenceText (table column : Text) : Text :=
  if table ≠ [] then
    ascii " REFERENCES " ++ quoteIdentifier table ++ ascii "(" ++ quoteIdentifier column ++
      ascii ")"
  else []

theorem slotsText_flags (floats : FloatFormat) (isNullable isPrimaryKey isUnique : Bool) :
    slotsText floats (constraintSlots isNullable isPrimaryKey isUnique) =
      flagsText isNullable isPrimaryKey isUnique := by
  simp [constraintSlots, flagsText]

theorem slotsText_default (floats : FloatFormat) (value : Text) :
    slotsText floats (optionalSlots (value ≠ []) [slot " DEFAULT ", .fixed (.raw value)]) =
      defaultText value := by
  by_cases h : value = [] <;> simp [defaultText, h]

theorem slotsText_reference (floats : FloatFormat) (table column : Text) :
    slotsText floats (optionalSlots (table ≠ [])
      [slot " REFERENCES ", nameSlot table, slot "(", nameSlot column, slot ")"]) =
      referenceText table column := by
  by_cases h : table = [] <;> simp [referenceText, h]

namespace StaticField

def flags (f : StaticField) : Text := flagsText f.isNullable f.isPrimaryKey f.isUnique

def head (f : StaticField) : Text := quoteIdentifier f.name ++ ascii " "

def staticTail (f : StaticField) : Text := sqlTypeFor f.cppType ++ f.flags

def dynamicTail (f : StaticField) : Text :=
  f.dynamicSchema.dbType ++ f.flags ++ defaultText f.dynamicSchema.defaultValue ++
    referenceText f.dynamicSchema.foreignTable f.dynamicSchema.foreignColumn

theorem slotsText_static (floats : FloatFormat) (f : StaticField) :
    slotsText floats (staticFieldSlots f.schema) = f.head ++ f.staticTail := by
  rw [staticFieldSlots, slotsText_append, slotsText_flags]
  simp [schema, head, staticTail, flags]

theorem slotsText_dynamic (floats : FloatFormat) (f : StaticField) :
    slotsText floats (dynamicFieldSlots f.dynamicSchema) = f.head ++ f.dynamicTail := by
  have hforeign : decide (f.dynamicSchema.isForeignKey = true ∧
      f.dynamicSchema.foreignTable ≠ []) = decide (f.dynamicSchema.foreignTable ≠ []) := by
    refine decide_eq_decide.2 ?_
    unfold dynamicSchema
    cases extractForeignKey f.constraints <;> simp
  rw [dynamicFieldSlots, hforeign, slotsText_append, slotsText_append, slotsText_append,
    slotsText_flags, slotsText_default, slotsText_reference]
  simp [head, dynamicTail, flags, dynamicSchema]

/-- No type and no flag has a quotation mark or the F of DEFAULT. -/
theorem staticTail_free (f : StaticField) :
    doubleQuote ∉ f.staticTail ∧ (70 : UInt8) ∉ f.staticTail := by
  have htype : ∀ t, doubleQuote ∉ sqlTypeFor t ∧ (70 : UInt8) ∉ sqlTypeFor t := by
    intro t
    cases t <;> decide
  have hflags : ∀ isNullable isPrimaryKey isUnique,
      doubleQuote ∉ flagsText isNullable isPrimaryKey isUnique ∧
        (70 : UInt8) ∉ flagsText isNullable isPrimaryKey isUnique := by
    decide
  simp [staticTail, flags, htype, hflags]

/-- A column is mapped if its dynamic schema has nothing that the flags do not have. -/
theorem mapped_iff (f : StaticField) :
    f.Mapped ↔ f.dynamicSchema.defaultValue = [] ∧ f.dynamicSchema.foreignTable = [] ∧
      f.dynamicSchema.dbType = sqlTypeFor f.cppType := by
  constructor
  · rintro ⟨hdefault, hreference, htype⟩
    unfold dynamicSchema
    refine ⟨?_, ?_, ?_⟩
    · cases hv : extractDefault f.constraints with
      | none => rfl
      | some value => exact hdefault value hv
    · cases hfk : extractForeignKey f.constraints with
      | none => rfl
      | some fk => exact hreference fk.1 fk.2 hfk
    · cases ht : extractDbType f.constraints with
      | none => rfl
      | some sqlType => exact htype sqlType ht
  · rintro ⟨hdefault, htable, htype⟩
    refine ⟨fun value hv => ?_, fun table column hfk => ?_, fun sqlType ht => ?_⟩
    · simpa [dynamicSchema, hv] using hdefault
    · simpa [dynamicSchema, hfk] using htable
    · simpa [dynamicSchema, ht] using htype

/-- The tails of a column are the same exactly if nothing is declared that one of them leaves
out. -/
theorem tail_eq_iff (f : StaticField) : f.staticTail = f.dynamicTail ↔ f.Mapped := by
  rw [mapped_iff]
  constructor
  · intro h
    obtain ⟨hquote, hF⟩ := f.staticTail_free
    rw [h] at hquote hF
    simp only [dynamicTail, List.mem_append, not_or] at hquote hF
    have hdefault : f.dynamicSchema.defaultValue = [] := by
      by_contra hne
      refine hF.1.2 ?_
      rw [defaultText, if_pos hne]
      exact List.mem_append_left _ (by decide)
    have htable : f.dynamicSchema.foreignTable = [] := by
      by_contra hne
      refine hquote.2 ?_
      rw [referenceText, if_pos hne]
      simp [quoteIdentifier]
    simp only [staticTail, dynamicTail, hdefault, htable, defaultText, referenceText, ne_eq,
      not_true_eq_false, if_false, List.append_nil] at h
    exact ⟨hdefault, htable, (List.append_cancel_right h).symm⟩
  · rintro ⟨hdefault, htable, htype⟩
    simp [staticTail, dynamicTail, hdefault, htable, htype, defaultText, referenceText]

end StaticField

/-- What the loops over the columns write, with the bracket behind them. -/
theorem slotsText_separated (floats : FloatFormat) {γ β : Type} {slots : β → List Slot}
    {toField : γ → β} {head tail : γ → Text}
    (h : ∀ c, slotsText floats (slots (toField c)) = head c ++ tail c) (cols : List γ) :
    slotsText floats (separatedSlots slots (cols.map toField) ++ [slot ")"]) =
      columnsText (ascii ", ") (ascii ")") head tail cols := by
  induction cols with
  | nil => rfl
  | cons c cols ih =>
    cases cols with
    | nil => simp [separatedSlots, columnsText, h]
    | cons d rest =>
      rw [columnsText, ← ih]
      simp [separatedSlots, h]

/-- The text in front of the name of the table. -/
def createText (ifNotExists : Bool) : Text :=
  ascii "CREATE TABLE " ++ if ifNotExists then ascii "IF NOT EXISTS " else []

section

variable (floats : FloatFormat) (cfg : Setting) (tableName : Text) (fields : List StaticField)
  (ifNotExists : Bool)

theorem text_createStatic :
    renderAll floats (compile cfg (createStatic tableName fields ifNotExists)).2.sql =
      createText ifNotExists ++ ((if tableName ≠ [] then quoteIdentifier tableName else []) ++
        (ascii " (" ++ columnsText (ascii ", ") (ascii ")") StaticField.head
          StaticField.staticTail fields)) := by
  have htemplate : template (createStatic tableName fields ifNotExists) true =
      createTableSlots (.static ⟨tableName, fields.map StaticField.schema⟩) ifNotExists := by
    simp [createStatic, template]
  rw [renderAll_compile floats cfg (htemplate ▸ holes_createTable _ _), htemplate,
    ← slotsText_separated floats (fun f => f.slotsText_static floats) fields]
  have hname : slotsText floats (tableNameSlots tableName) =
      if tableName ≠ [] then quoteIdentifier tableName else [] := by
    unfold tableNameSlots
    split_ifs <;> simp
  simp [createTableSlots, createColumnsSlots, tableSlots, hname, createText]

theorem text_createDynamic :
    renderAll floats (compile cfg (createDynamic tableName fields ifNotExists)).2.sql =
      createText ifNotExists ++ (quoteIdentifier tableName ++
        (ascii " (" ++ columnsText (ascii ", ") (ascii ")") StaticField.head
          StaticField.dynamicTail fields)) := by
  have htemplate : template (createDynamic tableName fields ifNotExists) true =
      createTableSlots (.dynamic (some ⟨tableName, fields.map StaticField.dynamicSchema⟩))
        ifNotExists := by
    simp [createDynamic, template]
  rw [renderAll_compile floats cfg (htemplate ▸ holes_createTable _ _), htemplate,
    ← slotsText_separated floats (fun f => f.slotsText_dynamic floats) fields]
  simp [createTableSlots, createColumnsSlots, tableSlots, createText]

/-- The texts are the same exactly if the table has a name and no column declares what only
the loop for dynamic tables writes. -/
theorem create_agrees_iff :
    renderAll floats (compile cfg (createStatic tableName fields ifNotExists)).2.sql =
        renderAll floats (compile cfg (createDynamic tableName fields ifNotExists)).2.sql ↔
      tableName ≠ [] ∧ ∀ f ∈ fields, f.Mapped := by
  rw [text_createStatic, text_createDynamic, List.append_cancel_left_eq]
  by_cases hname : tableName = []
  · rw [if_neg (by simpa using hname)]
    refine iff_of_false (fun h => ?_) fun h => h.1 hname
    -- a space on the one side, a quotation mark on the other
    exact absurd (List.cons.inj h).1 (by decide)
  · have hsep : doubleQuote ∉ ascii ", " := by decide
    have hclose : doubleQuote ∉ ascii ")" := by decide
    have hhead : ∀ f : StaticField, ∃ h, f.head = doubleQuote :: h := fun f => ⟨_, rfl⟩
    rw [if_pos hname, List.append_cancel_left_eq, List.append_cancel_left_eq,
      tails_eq_iff hsep hclose hhead fun f _ => f.staticTail_free.1]
    simp only [StaticField.tail_eq_iff, ne_eq, hname, not_false_eq_true, true_and]

end

/-- A declared default is not written. -/
def flagField : StaticField := ⟨.bool, ascii "active", [.notNull, .default (ascii "TRUE")]⟩

theorem create_disagrees_on_default :
    renderAll default (compile ⟨.inline, .lvalue, id⟩
        (createStatic (ascii "users") [flagField] false)).2.sql ≠
      renderAll default (compile ⟨.inline, .lvalue, id⟩
        (createDynamic (ascii "users") [flagField] false)).2.sql := by
  decide +kernel

end Demiplane.Query

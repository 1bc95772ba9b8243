import Demiplane.Query.Lexing
import Demiplane.Sql.SetOperations

/-!
The parentheses in the text of a query. What is written for a tree closes the parentheses
that it opens and no others, and a scalar expression keeps the queries inside of it in
parentheses.
-/

namespace Demiplane.Query

open Text Sql Sql.Lexer

/-! ### Depth by shapes -/

/-- Tokens of names, constants and parameters. -/
def isOperand : Token → Bool
  | .quoted _ _ | .string _ _ | .param _ | .number _ => true
  | .operator text => text == [minus]
  | .word text => constantWords.contains text
  | _ => false

def Shape.depth (stop : Token → Bool) (d : ℕ) : Shape → Option ℕ
  | .text s => depthAfter stop d (scan (ascii s))
  | .name => some d
  | .token => some d
  | .raw => none

def depths (stop : Token → Bool) : ℕ → List Shape → Option ℕ
  | d, [] => some d
  | d, x :: xs => (x.depth stop d).bind fun e => depths stop e xs

theorem IsSigned.isOperand {t : Text} (h : IsSigned t) :
    ∀ token ∈ scan t, isOperand token = true := by
  obtain ⟨mode, hmode, hrun⟩ := h
  have hpending : ∀ token ∈ pending mode, Query.isOperand token = true := by
    intro token htoken
    cases mode with
    | word acc =>
      obtain rfl := List.mem_singleton.mp htoken
      exact hmode
    | number acc =>
      obtain rfl := List.mem_singleton.mp htoken
      rfl
    | stringEnd kind acc =>
      obtain rfl := List.mem_singleton.mp htoken
      rfl
    | _ => cases hmode
  intro token htoken
  rcases hrun with hrun | hrun
  · rw [scan, hrun] at htoken
    exact hpending token htoken
  · rw [scan, hrun] at htoken
    rcases List.mem_cons.mp htoken with rfl | htoken
    · rfl
    · exact hpending token htoken

theorem Piece.isOperand (floats : FloatFormat) {p : Piece}
    (h : p.shape = .name ∨ p.shape = .token) :
    ∀ t ∈ p.tokens floats, Query.isOperand t = true := by
  cases p with
  | text s => simp [Piece.shape] at h
  | raw t => simp [Piece.shape] at h
  | identifier name =>
    intro t ht
    rw [Piece.tokens, Piece.render, scan, run_quoteIdentifier] at ht
    obtain rfl := List.mem_singleton.mp ht
    rfl
  | number n =>
    rw [Piece.tokens, Piece.render, Gears.constexprToString_eq]
    exact (isConstant_decimal n).signed.isOperand
  | value v => exact (isSigned_formatValue floats v).isOperand
  | param index origin =>
    intro t ht
    rw [Piece.tokens, Piece.render, scan, run_placeholder] at ht
    obtain rfl := List.mem_singleton.mp ht
    rfl

section

variable {stop : Token → Bool} {slots : List Slot}

theorem depthAfter_operands (hstop : ∀ t, isOperand t = true → stop t = false) {ts : List Token}
    (h : ∀ t ∈ ts, isOperand t = true) (d : ℕ) : depthAfter stop d ts = some d := by
  induction ts with
  | nil => rfl
  | cons t ts ih =>
    have ht := h t List.mem_cons_self
    have hne : t ≠ openParen ∧ t ≠ closeParen := by
      constructor <;> (rintro rfl; exact absurd ht (by decide))
    simp only [depthAfter, hstop t ht, Bool.false_and, Bool.false_eq_true, if_false, hne.1, hne.2]
    exact ih fun t' ht' => h t' (List.mem_cons_of_mem _ ht')

theorem Piece.depthAfter (hstop : ∀ t, Query.isOperand t = true → stop t = false)
    (floats : FloatFormat) {p : Piece} {d e : ℕ} (h : p.shape.depth stop d = some e) :
    Sql.depthAfter stop d (p.tokens floats) = some e := by
  have hoperand : p.shape = .name ∨ p.shape = .token →
      Sql.depthAfter stop d (p.tokens floats) = some d := fun hshape =>
    depthAfter_operands hstop (Piece.isOperand floats hshape) d
  cases p with
  | text s => exact h
  | raw t => cases h
  | identifier name => exact (hoperand (.inl rfl)).trans h
  | number n => exact (hoperand (.inr rfl)).trans h
  | value v => exact (hoperand (.inr rfl)).trans h
  | param index origin => exact (hoperand (.inr rfl)).trans h

theorem depthAfter_pieces (hstop : ∀ t, isOperand t = true → stop t = false) (floats : FloatFormat)
    {ps : List Piece} {d e : ℕ} (h : depths stop d (ps.map Piece.shape) = some e) :
    depthAfter stop d (ps.flatMap (Piece.tokens floats)) = some e := by
  induction ps generalizing d with
  | nil => exact h
  | cons p ps ih =>
    obtain ⟨d', hp, hps⟩ := Option.bind_eq_some_iff.mp h
    rw [List.flatMap_cons, depthAfter_append, Piece.depthAfter hstop floats hp]
    exact ih hps

/-! ### Templates -/

theorem depths_append (d : ℕ) (xs ys : List Shape) :
    depths stop d (xs ++ ys) = (depths stop d xs).bind fun e => depths stop e ys := by
  induction xs generalizing d with
  | nil => rfl
  | cons x xs ih =>
    cases h : x.depth stop d with
    | none => simp [depths, h]
    | some e => simp [depths, h, ih]

/-- The slots leave the depth as it is. -/
def Steady (stop : Token → Bool) (slots : List Slot) : Prop :=
  ∀ d, depths stop d (shapes slots) = some d

/-- The text leaves the depth as it is. -/
def Calm (stop : Token → Bool) (s : String) : Prop :=
  ∀ d, depthAfter stop d (scan (ascii s)) = some d

theorem steady_nil : Steady stop [] := fun _ => rfl

theorem Steady.append {slots more : List Slot} (h : Steady stop slots) (hmore : Steady stop more) :
    Steady stop (slots ++ more) := by
  intro d
  rw [shapes, List.map_append, depths_append]
  exact (congrArg (fun o : Option ℕ => o.bind _) (h d)).trans (hmore d)

theorem steady_slot {s : String} (hs : Calm stop s) (h : Steady stop slots) :
    Steady stop (slot s :: slots) := by
  intro d
  exact (congrArg (fun o : Option ℕ => o.bind _) (hs d)).trans (h d)

theorem steady_name (name : Text) (h : Steady stop slots) :
    Steady stop (nameSlot name :: slots) := h

theorem steady_number (n : ℕ) (h : Steady stop slots) :
    Steady stop (.fixed (.number n) :: slots) := h

theorem steady_hole (origin : Origin) (h : Steady stop slots) :
    Steady stop (.hole origin :: slots) := h

/-- Inside of parentheses the operators of sets may stand. -/
theorem Steady.deep (h : Steady anywhere slots) (d : ℕ) :
    depths stop (d + 1) (shapes slots) = some (d + 1) := by
  have hone : ∀ {xs : List Shape} {a b : ℕ}, depths anywhere a xs = some b →
      depths stop (a + d + 1) xs = some (b + d + 1) := by
    intro xs
    induction xs with
    | nil =>
      intro a b hab
      obtain rfl := Option.some.inj hab
      rfl
    | cons x xs ih =>
      intro a b hab
      obtain ⟨c, hx, hxs⟩ := Option.bind_eq_some_iff.mp hab
      have hdeep : x.depth stop (a + d + 1) = some (c + d + 1) := by
        cases x with
        | text s => exact depthAfter_deep hx d
        | raw => cases hx
        | name =>
          obtain rfl := Option.some.inj hx
          rfl
        | token =>
          obtain rfl := Option.some.inj hx
          rfl
      rw [depths, hdeep]
      exact ih hxs
  simpa using hone (h 0)

/-! ### Clauses -/

/-- `stop` keeps at most the operators of sets in parentheses. -/
def OnlySets (stop : Token → Bool) : Prop := ∀ t, stop t = true → isSetWord t = true

theorem onlySets_anywhere : OnlySets anywhere := fun _ h => by cases h

theorem onlySets_isSetWord : OnlySets isSetWord := fun _ h => h

variable (hstop : OnlySets stop)

include hstop

theorem OnlySets.depthAfter {s : String}
    (hs : ((scan (ascii s)).all fun t => !isSetWord t) = true) (d : ℕ) :
    Sql.depthAfter stop d (scan (ascii s)) = Sql.depthAfter anywhere d (scan (ascii s)) := by
  generalize scan (ascii s) = ts at hs
  induction ts generalizing d with
  | nil => rfl
  | cons t ts ih =>
    rw [List.all_cons, Bool.and_eq_true, Bool.not_eq_true'] at hs
    have ht : stop t = false := by
      by_contra hstrue
      rw [hstop t (by simpa using hstrue)] at hs
      cases hs.1
    simp only [Sql.depthAfter, ht, anywhere, Bool.false_and, Bool.false_eq_true, if_false]
    split_ifs
    · exact ih _ hs.2
    · cases d with
      | zero => rfl
      | succ d => exact ih d hs.2
    · exact ih d hs.2

theorem OnlySets.slot {s : String}
    (hs : ((scan (ascii s)).all fun t => !isSetWord t) = true) (h : Calm anywhere s)
    (hslots : Steady stop slots) : Steady stop (slot s :: slots) :=
  steady_slot (fun d => (hstop.depthAfter hs d).trans (h d)) hslots

/-- A text that opens a parenthesis, what is inside of it, and a text that closes it. -/
theorem OnlySets.group {s t : String} {slots more : List Slot}
    (hs : ((scan (ascii s)).all fun t => !isSetWord t) = true)
    (hopen : ∀ d, Sql.depthAfter anywhere d (scan (ascii s)) = some (d + 1))
    (ht : ((scan (ascii t)).all fun t => !isSetWord t) = true)
    (hclose : ∀ d, Sql.depthAfter anywhere (d + 1) (scan (ascii t)) = some d)
    (hslots : Steady anywhere slots) (h : Steady stop more) :
    Steady stop (Query.slot s :: slots ++ Query.slot t :: more) := by
  intro d
  have hin : depths stop d (shapes (Query.slot s :: slots ++ Query.slot t :: more)) =
      depths stop (d + 1) (shapes (slots ++ Query.slot t :: more)) :=
    congrArg (fun o : Option ℕ => o.bind _) ((hstop.depthAfter hs d).trans (hopen d))
  have hout : depths stop (d + 1) (shapes (Query.slot t :: more)) = some d :=
    (congrArg (fun o : Option ℕ => o.bind _)
      ((hstop.depthAfter ht (d + 1)).trans (hclose d))).trans (h d)
  rw [hin, shapes, List.map_append, depths_append]
  exact (congrArg (fun o : Option ℕ => o.bind _) (hslots.deep d)).trans hout

theorem OnlySets.separated {α : Type} {slots : α → List Slot} (h : ∀ a, Steady stop (slots a))
    (as : List α) : Steady stop (separatedSlots slots as) := by
  induction as with
  | nil => exact steady_nil
  | cons a as ih =>
    cases as with
    | nil => exact h a
    | cons b as => exact (h a).append (hstop.slot (by decide) (fun _ => rfl) ih)

omit hstop in
theorem steady_tableName (tableName : Text) : Steady stop (tableNameSlots tableName) := by
  unfold tableNameSlots
  split_ifs
  · exact steady_name tableName steady_nil
  · exact steady_nil

omit hstop in
theorem steady_table (table : Table) : Steady stop (tableSlots table) := by
  rcases table with (table | table) | tableName
  · cases table with
    | none => exact steady_nil
    | some table => exact steady_name table.tableName steady_nil
  · exact steady_tableName _
  · exact steady_tableName _

theorem OnlySets.alias (aliasName : Text) : Steady stop (aliasSlots aliasName) := by
  unfold aliasSlots
  split_ifs
  · exact hstop.slot (by decide) (fun _ => rfl) (steady_name aliasName steady_nil)
  · exact steady_nil

theorem OnlySets.column (col : ColumnLike) : Steady stop (columnSlots col) := by
  have hqualifier : ∀ table, Steady stop (qualifierSlots table) := by
    intro table
    unfold qualifierSlots
    split_ifs
    · exact steady_name table (hstop.slot (by decide) (fun _ => rfl) steady_nil)
    · exact steady_nil
  cases col with
  | column name table aliasName =>
    exact (hqualifier table).append (steady_name name (hstop.alias aliasName))
  | allColumns table =>
    exact (hqualifier table).append (hstop.slot (by decide) (fun _ => rfl) steady_nil)

theorem OnlySets.order (order : OrderBy) : Steady stop (orderSlots order) := by
  refine (hstop.column _).append ?_
  cases order.direction <;> exact hstop.slot (by decide) (fun _ => rfl) steady_nil

omit hstop in
theorem steady_optional (present : Bool) (h : Steady stop slots) :
    Steady stop (optionalSlots present slots) := by
  cases present
  · exact steady_nil
  · exact h

theorem OnlySets.argument (fn : Aggregate) (col : ColumnLike) :
    Steady stop (argumentSlots fn col) := by
  have hdistinct : ∀ distinct, Steady stop (optionalSlots distinct [Query.slot "DISTINCT "]) :=
    fun distinct => steady_optional distinct (hstop.slot (by decide) (fun _ => rfl) steady_nil)
  cases fn with
  | count distinct => cases col <;> exact (hdistinct distinct).append (hstop.column _)
  | _ => exact hstop.column col

theorem OnlySets.aggregate (fn : Aggregate) (col : ColumnLike) (aliasName : Text) :
    Steady stop (aggregateSlots fn col aliasName) := by
  have hset : ((scan (ascii (aggregateText fn))).all fun t => !isSetWord t) = true := by
    cases fn with
    | count distinct =>
      exact (by decide : ((scan (ascii "COUNT(")).all fun t => !isSetWord t) = true)
    | _ => decide
  have hopen : ∀ d, Sql.depthAfter anywhere d (scan (ascii (aggregateText fn))) = some (d + 1) := by
    cases fn with
    | count distinct =>
      exact (fun _ => rfl : ∀ d, Sql.depthAfter anywhere d (scan (ascii "COUNT(")) = some (d + 1))
    | _ => exact fun _ => rfl
  exact hstop.group hset hopen (by decide) (fun _ => rfl)
    (onlySets_anywhere.argument fn col) (hstop.alias aliasName)

theorem OnlySets.selectStart (distinct : Bool) : Steady stop (selectStartSlots distinct) :=
  hstop.slot (by decide) (fun _ => rfl)
    (steady_optional distinct (hstop.slot (by decide) (fun _ => rfl) steady_nil))

theorem OnlySets.limit (limit offset : ℕ) : Steady stop (limitSlots limit offset) :=
  hstop.slot (by decide) (fun _ => rfl) (steady_number limit (steady_optional _
    (hstop.slot (by decide) (fun _ => rfl) (steady_number offset steady_nil))))

/-- A common table expression, up to the parenthesis that closes its query. -/
theorem OnlySets.cte (recursive : Bool) (name : Text) {slots more : List Slot}
    (hslots : Steady anywhere slots) (h : Steady stop more) :
    Steady stop (cteStartSlots recursive name ++ slots ++ Query.slot ")" :: more) := by
  have hquery : Steady stop (Query.slot " AS (" :: slots ++ Query.slot ")" :: more) :=
    hstop.group (by decide) (fun _ => rfl) (by decide) (fun _ => rfl) hslots h
  have hrecursive : Steady stop (optionalSlots recursive [Query.slot "RECURSIVE "]) :=
    steady_optional recursive (hstop.slot (by decide) (fun _ => rfl) steady_nil)
  have hstart : Steady stop (Query.slot "WITH " :: (optionalSlots recursive
      [Query.slot "RECURSIVE "] ++ nameSlot name ::
        (Query.slot " AS (" :: slots ++ Query.slot ")" :: more))) :=
    hstop.slot (by decide) (fun _ => rfl) (hrecursive.append (steady_name name hquery))
  simpa [cteStartSlots] using hstart

theorem OnlySets.row (row : List FieldValue) : Steady stop (rowSlots row) := by
  have hvalue : ∀ value, Steady anywhere (storedSlots value) :=
    fun value => steady_hole _ steady_nil
  exact hstop.group (by decide) (fun _ => rfl) (by decide) (fun _ => rfl)
    (onlySets_anywhere.separated hvalue row) steady_nil

theorem OnlySets.insert (table : Table) (columns : List Text) (rows : List (List FieldValue)) :
    Steady stop (insertSlots table columns rows) := by
  have hcolumns : Steady anywhere (separatedSlots (fun name => [nameSlot name]) columns) :=
    onlySets_anywhere.separated (fun name => steady_name name steady_nil) columns
  have hrest : Steady stop
      (Query.slot " (" :: separatedSlots (fun name => [nameSlot name]) columns ++
        Query.slot ") VALUES " :: separatedSlots rowSlots rows) :=
    hstop.group (by decide) (fun _ => rfl) (by decide) (fun _ => rfl) hcolumns
      (hstop.separated hstop.row rows)
  rw [insertSlots, List.append_assoc]
  exact hstop.slot (by decide) (fun _ => rfl) ((steady_table table).append hrest)

theorem OnlySets.update (table : Table) (assignments : List (Text × FieldValue)) :
    Steady stop (updateSlots table assignments) := by
  have hassignment : ∀ assignment, Steady stop (assignmentSlots assignment) := fun assignment =>
    steady_name assignment.1 (hstop.slot (by decide) (fun _ => rfl) (steady_hole _ steady_nil))
  exact hstop.slot (by decide) (fun _ => rfl) ((steady_table table).append
    (hstop.slot (by decide) (fun _ => rfl) (hstop.separated hassignment assignments)))

theorem OnlySets.delete (table : Table) : Steady stop (deleteSlots table) :=
  hstop.slot (by decide) (fun _ => rfl) (steady_table table)

theorem OnlySets.dropTable (table : Table) (ifExists cascade : Bool) :
    Steady stop (dropTableSlots table ifExists cascade) := by
  have hexists : Steady stop (optionalSlots ifExists [Query.slot "IF EXISTS "]) :=
    steady_optional ifExists (hstop.slot (by decide) (fun _ => rfl) steady_nil)
  have hcascade : Steady stop (optionalSlots cascade [Query.slot " CASCADE"]) :=
    steady_optional cascade (hstop.slot (by decide) (fun _ => rfl) steady_nil)
  exact ((hstop.slot (by decide) (fun _ => rfl) hexists).append (steady_table table)).append
    hcascade

end

/-! ### Trees -/

/-- The node is part of an expression: queries are in it as subqueries or behind EXISTS. -/
def Node.isScalar : {k : Arity} → Node k → Bool
  | _, .column _ | _, .literal _ _ _ | _, .nullLiteral | _, .paramPlaceholder => true
  | _, .binaryExpr _ left right => left.isScalar && right.isScalar
  | _, .unaryExpr _ operand => operand.isScalar
  | _, .betweenExpr operand lower upper => operand.isScalar && lower.isScalar && upper.isScalar
  | _, .inListExpr operand values => operand.isScalar && values.isScalar
  | _, .subquery _ _ | _, .existsExpr _ | _, .aggregateExpr _ _ _ => true
  | _, .caseExpr whens _ => whens.isScalar
  | _, .caseExprWithElse whens otherwise _ => whens.isScalar && otherwise.isScalar
  | _, .nil | _, .noWhen => true
  | _, .cons head tail => head.isScalar && tail.isScalar
  | _, .when condition value rest => condition.isScalar && value.isScalar && rest.isScalar
  | _, _ => false

theorem calm_binaryOpText (op : BinaryOp) : Calm anywhere (binaryOpText op) := by
  cases op <;> exact fun _ => rfl

theorem calm_joinText (type : JoinType) : Calm anywhere (joinText type) := by
  cases type <;> exact fun _ => rfl

theorem calm_setOpText (op : SetOperation) : Calm anywhere (setOpText op) := by
  cases op <;> exact fun _ => rfl

/-- What is written for a tree closes the parentheses that it opens and no others. With the
operators of sets kept in parentheses this is so for parts of expressions. -/
theorem OnlySets.template {stop : Token → Bool} (hstop : OnlySets stop) {k : Arity} (e : Node k)
    (isFirst : Bool) (h : e.createsTable = false)
    (hscalar : stop = anywhere ∨ e.isScalar = true) :
    Steady stop (template e isFirst) := by
  have hany := onlySets_anywhere
  simp only [Node.createsTable] at h
  induction e generalizing stop isFirst with
    (try simp only [Node.any, Bool.or_eq_false_iff] at h
     try simp only [Node.isScalar, Bool.and_eq_true, Bool.false_eq_true, or_false] at hscalar)
  | column col => exact hstop.column col
  | literal type value aliasName => exact steady_hole _ (hstop.alias aliasName)
  | nullLiteral => exact hstop.slot (by decide) (fun _ => rfl) steady_nil
  | paramPlaceholder => exact steady_hole _ steady_nil
  | binaryExpr op left right ihl ihr =>
    have hinner : Steady anywhere (Query.template left true ++ Query.slot (binaryOpText op) ::
        Query.template right true) :=
      (ihl hany true h.1.2 (.inl rfl)).append
        (steady_slot (calm_binaryOpText op) (ihr hany true h.2 (.inl rfl)))
    exact hstop.group (by decide) (fun _ => rfl) (by decide) (fun _ => rfl) hinner steady_nil
  | unaryExpr op operand ih =>
    have hoperand := ih hstop true h.2 hscalar
    cases op with
    | not => exact hstop.slot (by decide) (fun _ => rfl) hoperand
    | isNull => exact hoperand.append (hstop.slot (by decide) (fun _ => rfl) steady_nil)
    | isNotNull => exact hoperand.append (hstop.slot (by decide) (fun _ => rfl) steady_nil)
  | betweenExpr operand lower upper iho ihl ihu =>
    have hoperand := iho hstop true h.1.1.2 (hscalar.imp id fun hs => hs.1.1)
    have hlower := ihl hstop true h.1.2 (hscalar.imp id fun hs => hs.1.2)
    have hupper := ihu hstop true h.2 (hscalar.imp id fun hs => hs.2)
    rw [Query.template, List.append_assoc]
    exact hoperand.append (hstop.slot (by decide) (fun _ => rfl)
      (hlower.append (hstop.slot (by decide) (fun _ => rfl) hupper)))
  | inListExpr operand values iho ihv =>
    have hoperand := iho hstop true h.1.2 (hscalar.imp id fun hs => hs.1)
    rw [Query.template, List.append_assoc]
    exact hoperand.append (hstop.group (by decide) (fun _ => rfl) (by decide) (fun _ => rfl)
      (ihv hany true h.2 (.inl rfl)) steady_nil)
  | subquery query aliasName ih =>
    exact hstop.group (by decide) (fun _ => rfl) (by decide) (fun _ => rfl)
      (ih hany true h.2 (.inl rfl)) (hstop.alias aliasName)
  | existsExpr query ih =>
    exact hstop.group (by decide) (fun _ => rfl) (by decide) (fun _ => rfl)
      (ih hany true h.2 (.inl rfl)) steady_nil
  | aggregateExpr fn col aliasName => exact hstop.aggregate fn col aliasName
  | selectExpr distinct columns ih =>
    subst hscalar
    exact (hstop.selectStart distinct).append (ih hany true h.2 (.inl rfl))
  | fromTableExpr select table aliasName ih =>
    subst hscalar
    rw [Query.template, List.append_assoc]
    exact (ih hany true h.2 (.inl rfl)).append (hstop.slot (by decide) (fun _ => rfl)
      ((steady_table table).append (hstop.alias aliasName)))
  | fromCteExpr select name query recursive ihs ihq =>
    subst hscalar
    have hselect := hstop.slot (s := " ") (by decide) (fun _ => rfl)
      ((ihs hany true h.1.2 (.inl rfl)).append
        (hstop.slot (s := " FROM ") (by decide) (fun _ => rfl) (steady_tableName name)))
    rw [Query.template, List.append_assoc (_ ++ _)]
    exact hstop.cte recursive name (ihq hany true h.2 (.inl rfl)) hselect
  | whereExpr _ _ ihq ihc | groupByQueryExpr _ _ ihq ihc | havingExpr _ _ ihq ihc =>
    subst hscalar
    exact (ihq hany true h.1.2 (.inl rfl)).append
      (hstop.slot (by decide) (fun _ => rfl) (ihc hany true h.2 (.inl rfl)))
  | groupByColumnExpr query columns ih =>
    subst hscalar
    exact (ih hany true h.2 (.inl rfl)).append
      (hstop.slot (by decide) (fun _ => rfl) (hstop.separated hstop.column columns))
  | orderByExpr query orders ih =>
    subst hscalar
    exact (ih hany true h.2 (.inl rfl)).append
      (hstop.slot (by decide) (fun _ => rfl) (hstop.separated hstop.order orders))
  | limitExpr query count offset ih =>
    subst hscalar
    exact (ih hany true h.2 (.inl rfl)).append (hstop.limit count offset)
  | joinExpr query onCondition table type aliasName ihq ihc =>
    subst hscalar
    rw [Query.template, List.append_assoc, List.append_assoc]
    exact (ihq hany true h.1.2 (.inl rfl)).append (steady_slot (calm_joinText type)
      ((steady_table table).append ((hstop.alias aliasName).append
        (hstop.slot (by decide) (fun _ => rfl) (ihc hany true h.2 (.inl rfl))))))
  | insertExpr table columns rows => exact hstop.insert table columns rows
  | updateExpr table assignments => exact hstop.update table assignments
  | updateWhereExpr table assignments condition ih =>
    subst hscalar
    exact (hstop.update table assignments).append
      (hstop.slot (by decide) (fun _ => rfl) (ih hany true h.2 (.inl rfl)))
  | deleteExpr table => exact hstop.delete table
  | deleteWhereExpr table condition ih =>
    subst hscalar
    exact (hstop.delete table).append
      (hstop.slot (by decide) (fun _ => rfl) (ih hany true h.2 (.inl rfl)))
  | setOpExpr left right op ihl ihr =>
    subst hscalar
    exact (ihl hany true h.1.2 (.inl rfl)).append
      (steady_slot (calm_setOpText op) (ihr hany true h.2 (.inl rfl)))
  | caseExpr whens aliasName ih =>
    exact hstop.slot (by decide) (fun _ => rfl) ((ih hstop true h.2 hscalar).append
      (hstop.slot (by decide) (fun _ => rfl) (hstop.alias aliasName)))
  | caseExprWithElse whens otherwise aliasName ihw ihe =>
    have hwhens := ihw hstop true h.1.2 (hscalar.imp id fun hs => hs.1)
    have hotherwise := ihe hstop true h.2 (hscalar.imp id fun hs => hs.2)
    rw [Query.template, List.append_assoc]
    exact hstop.slot (by decide) (fun _ => rfl) (hwhens.append
      (hstop.slot (by decide) (fun _ => rfl) (hotherwise.append
        (hstop.slot (by decide) (fun _ => rfl) (hstop.alias aliasName)))))
  | cteExpr name query recursive ih =>
    exact hstop.cte recursive name (ih hany true h.2 (.inl rfl))
      (hstop.slot (by decide) (fun _ => rfl) steady_nil)
  | createTableExpr table ifNotExists => cases h
  | dropTableExpr table ifExists cascade => exact hstop.dropTable table ifExists cascade
  | nil => exact steady_nil
  | cons head tail ihh iht =>
    exact ((steady_optional _ (hstop.slot (by decide) (fun _ => rfl) steady_nil)).append
      (ihh hstop true h.1 (hscalar.imp id fun hs => hs.1))).append
      (iht hstop false h.2 (hscalar.imp id fun hs => hs.2))
  | noWhen => exact steady_nil
  | when condition value rest ihc ihv ihr =>
    have hcondition := ihc hstop true h.1.1 (hscalar.imp id fun hs => hs.1.1)
    have hvalue := ihv hstop true h.1.2 (hscalar.imp id fun hs => hs.1.2)
    rw [Query.template, List.append_assoc]
    exact hstop.slot (by decide) (fun _ => rfl) (hcondition.append
      (hstop.slot (by decide) (fun _ => rfl)
        (hvalue.append (ihr hstop true h.2 (hscalar.imp id fun hs => hs.2)))))

end Demiplane.Query

import Demiplane.Query.Nesting

/-!
Queries combined by set operations. `visit_set_op` writes no parentheses, so that the
server reads the operands in the order of the tree and groups them by its own rules.
-/

namespace Demiplane.Query

open Text Sql Sql.Lexer

/-- A `SELECT ... FROM ... WHERE` whose queries inside are in parentheses. -/
structure PlainSelect where
  distinct : Bool
  columns : Node .tuple
  table : Table
  aliasName : Text
  condition : Expression
  columns_isScalar : columns.isScalar = true
  columns_createsTable : columns.createsTable = false
  condition_isScalar : condition.isScalar = true
  condition_createsTable : condition.createsTable = false

def PlainSelect.expression (q : PlainSelect) : Expression :=
  .whereExpr (.fromTableExpr (.selectExpr q.distinct q.columns) q.table q.aliasName) q.condition

def setOperation : SetOp → SetOperation
  | .union => .union
  | .unionAll => .unionAll
  | .intersect => .intersect
  | .except => .except

def build : SetTree PlainSelect → Expression
  | .leaf q => q.expression
  | .node op left right => .setOpExpr (build left) (build right) (setOperation op)

/-! ### What is written for the leaves -/

/-- The tokens of the leaves, as they are written from left to right. -/
def leafTexts (floats : FloatFormat) (cfg : Setting) :
    Visitor → SetTree PlainSelect → SetTree (List Token)
  | v, .leaf q =>
      .leaf ((written cfg v (template q.expression true)).flatMap (Piece.tokens floats))
  | v, .node op left right =>
      .node op (leafTexts floats cfg v left)
        (leafTexts floats cfg
          (fill cfg (template (build left) true ++ [slot (setOpText (setOperation op))]) v) right)

theorem tokens_setOpText (floats : FloatFormat) (op : SetOp) :
    Piece.tokens floats (.text (setOpText (setOperation op))) = op.tokens := by
  cases op <;> rfl

theorem written_build (floats : FloatFormat) (cfg : Setting) (v : Visitor)
    (t : SetTree PlainSelect) :
    (written cfg v (template (build t) true)).flatMap (Piece.tokens floats) =
      (leafTexts floats cfg v t).tokens := by
  induction t generalizing v with
  | leaf q => rfl
  | node op left right ihl ihr =>
    have htemplate : template (build (.node op left right)) true =
        (template (build left) true ++ [slot (setOpText (setOperation op))]) ++
          template (build right) true := by
      simp [build, template]
    rw [htemplate, written_append, written_append, written_slot, List.flatMap_append,
      List.flatMap_append, ihl, ihr, List.flatMap_singleton, tokens_setOpText]
    rfl

theorem like_leafTexts (floats : FloatFormat) (cfg : Setting) (v : Visitor)
    (t : SetTree PlainSelect) : (leafTexts floats cfg v t).Like t := by
  induction t generalizing v with
  | leaf q => trivial
  | node op left right ihl ihr => exact ⟨rfl, ihl v, ihr _⟩

theorem PlainSelect.createsTable (q : PlainSelect) : q.expression.createsTable = false := by
  have hcolumns := q.columns_createsTable
  have hcondition := q.condition_createsTable
  simp only [Node.createsTable] at hcolumns hcondition
  simp [PlainSelect.expression, Node.createsTable, Node.any, Node.isCreateTable, hcolumns,
    hcondition]

theorem build_createsTable (t : SetTree PlainSelect) : (build t).createsTable = false := by
  induction t with
  | leaf q => exact q.createsTable
  | node op left right ihl ihr =>
    simp only [Node.createsTable] at ihl ihr
    simp [build, Node.createsTable, Node.any, Node.isCreateTable, ihl, ihr]

/-- Outside of parentheses there is no set operation in a leaf. -/
theorem PlainSelect.steady (q : PlainSelect) :
    Steady isSetWord (template q.expression true) := by
  have hstop := onlySets_isSetWord
  have hcolumns := hstop.template q.columns true q.columns_createsTable (.inr q.columns_isScalar)
  have hcondition := hstop.template q.condition true q.condition_createsTable
    (.inr q.condition_isScalar)
  have hfrom : Steady isSetWord (slot " FROM " :: (tableSlots q.table ++ aliasSlots q.aliasName)) :=
    hstop.slot (by decide) (fun _ => rfl) ((steady_table q.table).append (hstop.alias q.aliasName))
  have hwhere : Steady isSetWord (slot " WHERE " :: template q.condition true) :=
    hstop.slot (by decide) (fun _ => rfl) hcondition
  have hall := (((hstop.selectStart q.distinct).append hcolumns).append hfrom).append hwhere
  simpa [PlainSelect.expression, template] using hall

theorem not_isSetWord_of_isOperand {t : Token} (h : isOperand t = true) : isSetWord t = false := by
  cases t with
  | word text =>
    have hall : ∀ w ∈ constantWords, isSetWord (.word w) = false := by decide
    exact hall text (by simpa [isOperand] using h)
  | _ => rfl

theorem isOperandText_leaf (floats : FloatFormat) (cfg : Setting) (v : Visitor) (q : PlainSelect) :
    IsOperandText
      ((written cfg v (template q.expression true)).flatMap (Piece.tokens floats)) := by
  constructor
  · refine depthAfter_pieces (fun t => not_isSetWord_of_isOperand) floats ?_
    rw [written_shapes]
    exact q.steady 0
  · have htemplate : ∃ slots, template q.expression true = [slot "SELECT "] ++ slots := by
      simp [PlainSelect.expression, template, selectStartSlots]
    obtain ⟨slots, hslots⟩ := htemplate
    rw [hslots, written_append, written_slot, List.flatMap_append, List.flatMap_singleton,
      List.head?_append_of_ne_nil _ (by exact List.cons_ne_nil _ _)]
    exact (by decide : (scan (ascii "SELECT ")).head? ≠ some (.word (ascii "ALL")))

theorem isOperandText_leafTexts (floats : FloatFormat) (cfg : Setting) (v : Visitor)
    (t : SetTree PlainSelect) : ∀ ts ∈ (leafTexts floats cfg v t).leaves, IsOperandText ts := by
  induction t generalizing v with
  | leaf q =>
    intro ts hts
    obtain rfl := List.mem_singleton.mp hts
    exact isOperandText_leaf floats cfg v q
  | node op left right ihl ihr =>
    intro ts hts
    rw [leafTexts, SetTree.leaves_node, List.mem_append] at hts
    exact hts.elim (ihl _ ts) (ihr _ ts)

/-- The server reads the leaves in their order, and groups them anew. -/
theorem parseSets_build (floats : FloatFormat) (cfg : Setting) (t : SetTree PlainSelect) :
    parseSets (lex (renderAll floats (compile cfg (build t)).2.sql)) =
      ((leafTexts floats cfg .fresh t).leaves, (t.number 0).reparse) := by
  rw [lex_compile floats cfg (build_createsTable t), compile_sql, written_build,
    parseSets_tokens (isOperandText_leafTexts floats cfg .fresh t),
    (like_leafTexts floats cfg .fresh t).number]

/-- The query that is read has the rows of the query that was built, whatever the rows of
the leaves are, exactly if the tree allows for the regrouping. -/
theorem set_operations_iff {ρ : Type} [DecidableEq ρ] [Inhabited ρ] (floats : FloatFormat)
    (cfg : Setting) (t : SetTree PlainSelect) :
    (parseSets (lex (renderAll floats (compile cfg (build t)).2.sql))).1 =
      (leafTexts floats cfg .fresh t).leaves ∧
    ((∀ rows : ℕ → Multiset ρ,
      ((parseSets (lex (renderAll floats (compile cfg (build t)).2.sql))).2.map rows).rows =
        ((t.number 0).map rows).rows) ↔ t.Regroups) := by
  rw [parseSets_build]
  refine ⟨rfl, ?_⟩
  rw [← SetTree.rows_reparse_iff (ρ := ρ)]
  constructor
  · intro h s hs
    obtain ⟨rows, hrows⟩ := s.exists_number_map 0
    have hs' : (t.number 0).map rows = s := by
      rw [← hs.number]
      exact hrows rows fun _ _ _ => rfl
    have heq := h rows
    rwa [← SetTree.reparse_map, hs'] at heq
  · intro h rows
    rw [← SetTree.reparse_map]
    exact h _ (SetTree.like_trans (SetTree.like_map rows _) (SetTree.like_number 0 t))

/-- `SELECT "id" FROM tableName WHERE "active"`. -/
def activeIds (tableName : String) : PlainSelect where
  distinct := false
  columns := .cons (.column (.column (ascii "id") [] [])) .nil
  table := .name (ascii tableName)
  aliasName := []
  condition := .column (.column (ascii "active") [] [])
  columns_isScalar := rfl
  columns_createsTable := rfl
  condition_isScalar := rfl
  condition_createsTable := rfl

/-- The users that are neither banned nor gone. -/
def exceptUnion : SetTree PlainSelect :=
  .node .except (.leaf (activeIds "users"))
    (.node .union (.leaf (activeIds "banned")) (.leaf (activeIds "gone")))

/-- An id that only the last query has is in the result. -/
theorem union_in_except :
    renderAll default (compile ⟨.inline, .lvalue, id⟩ (build exceptUnion)).2.sql =
      ascii ("SELECT \"id\" FROM \"users\" WHERE \"active\" EXCEPT " ++
        "SELECT \"id\" FROM \"banned\" WHERE \"active\" UNION " ++
        "SELECT \"id\" FROM \"gone\" WHERE \"active\"") ∧
    ∃ rows : ℕ → Multiset ℕ,
      ((exceptUnion.number 0).map rows).rows = 0 ∧
      ((parseSets (lex (renderAll default
        (compile ⟨.inline, .lvalue, id⟩ (build exceptUnion)).2.sql))).2.map rows).rows = {7} := by
  refine ⟨by decide +kernel, fun i => if i = 2 then {7} else 0, by decide, ?_⟩
  rw [parseSets_build]
  decide

end Demiplane.Query

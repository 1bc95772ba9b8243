import Demiplane.Query.Numbering

/-!
Inline and Sink mode write the same text, up to what stands for a value: its SQL text in
one mode, the number it was pushed under in the other. Both fill the same template, and
neither looks at the value category of the tree, so that a tree that is consumed gives
what a tree that is kept gives.
-/

namespace Demiplane.Query

/-- The text with its `k`-th parameter replaced by the SQL text of the `k`-th of `values`,
whatever the numbers of the parameters are. -/
def substitute (floats : FloatFormat) : List Piece → List FieldValue → Text
  | [], _ => []
  | .param _ _ :: sql, value :: values => formatValue floats value ++ substitute floats sql values
  | p :: sql, values => p.render floats ++ substitute floats sql values

def Node.isParamPlaceholder : Expression → Bool
  | .paramPlaceholder => true
  | _ => false

/-- The literals, inserted values and assigned values of a tree, as they are visited. -/
def Node.values {k : Arity} (e : Node k) : List FieldValue := e.origins.filterMap Origin.value?

theorem placeholder_mem_origins_iff {k : Arity} (e : Node k) :
    .placeholder ∈ e.origins ↔ e.any Node.isParamPlaceholder = true := by
  induction e with
  | _ => simp [Node.origins, Node.any, Node.isParamPlaceholder, or_comm, or_assoc, *]

/-! ### Replacing the parameters -/

section

variable (floats : FloatFormat)

theorem substitute_append {sql : List Piece} {values : List FieldValue}
    (h : (occurrences sql).length = values.length) (more : List Piece) (rest : List FieldValue) :
    substitute floats (sql ++ more) (values ++ rest) =
      substitute floats sql values ++ substitute floats more rest := by
  induction sql generalizing values with
  | nil =>
    obtain rfl := List.length_eq_zero_iff.mp h.symm
    rfl
  | cons p sql ih =>
    cases p with
    | param index origin =>
      cases values with
      | nil => cases h
      | cons value values => simp [substitute, ih (Nat.succ.inj h)]
    | _ => simp [substitute, ih h]

theorem substitute_fixed (p : Fixed) : substitute floats [p.piece] [] = p.piece.render floats := by
  cases p <;> simp [substitute, Fixed.piece]

theorem renderAll_append (sql more : List Piece) :
    renderAll floats (sql ++ more) = renderAll floats sql ++ renderAll floats more :=
  List.flatMap_append

theorem renderAll_singleton (p : Piece) : renderAll floats [p] = p.render floats := by
  simp [renderAll]

/-! ### Both modes over one template -/

/-- A visitor in Inline mode and one in Sink mode that has pushed `values`. -/
structure Agree (values : List FieldValue) (v w : Visitor) : Prop where
  text : renderAll floats v.sql = substitute floats w.sql values
  count : (occurrences w.sql).length = values.length
  sink : w.sink = Params.empty.pushAll values

variable {floats}

/-- Both write one more piece, and the one in Sink mode pushes `more`. -/
theorem Agree.write {values more : List FieldValue} {v w w' : Visitor} (h : Agree floats values v w)
    {p q : Piece} (hsql : w'.sql = w.sql ++ [q]) (hsink : w'.sink = w.sink.pushAll more)
    (htext : p.render floats = substitute floats [q] more)
    (hcount : (occurrences [q]).length = more.length) :
    Agree floats (values ++ more) { v with sql := v.sql ++ [p] } w' where
  text := by
    rw [hsql, renderAll_append, renderAll_singleton, substitute_append floats h.count, h.text,
      htext]
  count := by rw [hsql, occurrences_append, List.length_append, h.count, hcount, List.length_append]
  sink := by rw [hsink, h.sink, Params.pushAll_append]

variable {category category' : ValueCategory} {residue residue' : FieldValue → FieldValue}

theorem Agree.fillOne {values : List FieldValue} {v w : Visitor} (h : Agree floats values v w)
    {s : Slot} (hs : s.origin? ≠ some .placeholder) :
    Agree floats (values ++ s.origin?.toList.filterMap Origin.value?)
      ((fillOne ⟨.inline, category, residue⟩ s).run v).2
      ((fillOne ⟨.sink, category', residue'⟩ s).run w).2 := by
  rcases s with p | (value | value | _)
  · refine h.write rfl rfl (substitute_fixed floats p).symm ?_
    rw [occurrences_fixed]
    rfl
  · exact h.write rfl rfl (List.append_nil _).symm rfl
  · exact h.write rfl rfl (List.append_nil _).symm rfl
  · exact absurd rfl hs

theorem Agree.fill {values : List FieldValue} {v w : Visitor} (h : Agree floats values v w)
    {slots : List Slot} (hslots : .placeholder ∉ holes slots) :
    Agree floats (values ++ (holes slots).filterMap Origin.value?)
      (fill ⟨.inline, category, residue⟩ slots v)
      (fill ⟨.sink, category', residue'⟩ slots w) := by
  induction slots generalizing values v w with
  | nil => simpa using h
  | cons s slots ih =>
    have hholes : holes (s :: slots) = s.origin?.toList ++ holes slots := by cases s <;> rfl
    rw [hholes, List.mem_append, not_or] at hslots
    have hs : s.origin? ≠ some .placeholder := fun heq => hslots.1 (by simp [heq])
    rw [fill_cons, fill_cons, hholes, List.filterMap_append, ← List.append_assoc]
    exact ih (h.fillOne hs) hslots.2

theorem agree_compile (e : Expression) (h : .placeholder ∉ e.origins) :
    Agree floats e.values (compile ⟨.inline, category, residue⟩ e).2
      (compile ⟨.sink, category', residue'⟩ e).2 := by
  rw [compile_eq, visit_eq, compile_eq, visit_eq, Node.values, ← holes_template e true]
  rw [← holes_template e true] at h
  have hfresh : Agree floats [] .fresh .fresh := ⟨rfl, rfl, rfl⟩
  exact hfresh.fill h

/-! ### Value categories -/

theorem fillOne_category (mode : ParamMode) (s : Slot) :
    fillOne ⟨mode, category, residue⟩ s = fillOne ⟨mode, category', residue'⟩ s := by
  rcases s with p | (value | value | _) <;> rfl

/-- Nothing that was moved from is read again. -/
theorem compile_category (mode : ParamMode) (e : Expression) :
    compile ⟨mode, category, residue⟩ e = compile ⟨mode, category', residue'⟩ e := by
  have hfill : fill ⟨mode, category, residue⟩ = fill ⟨mode, category', residue'⟩ := by
    funext slots v
    have hone : fillOne ⟨mode, category, residue⟩ = fillOne ⟨mode, category', residue'⟩ :=
      funext (fillOne_category mode)
    rw [fill, hone]
    rfl
  rw [compile_eq, visit_eq, compile_eq, visit_eq, hfill]
  rfl

end

/-- The text of Inline mode is the text of Sink mode with each parameter replaced by the
value that was pushed for it, and a tree gives the same query from an lvalue and from an
rvalue, whatever is left in the values that were moved from. -/
theorem inline_agrees_with_sink (floats : FloatFormat) (e : Expression)
    (category category' : ValueCategory) (residue residue' : FieldValue → FieldValue) :
    (e.any Node.isParamPlaceholder = false →
      (compileDynamic ⟨.sink, category', residue'⟩ e).packet = Params.empty.pushAll e.values ∧
      (occurrences (compileDynamic ⟨.sink, category', residue'⟩ e).sql).length = e.values.length ∧
      renderAll floats (compileDynamic ⟨.inline, category, residue⟩ e).sql =
        substitute floats (compileDynamic ⟨.sink, category', residue'⟩ e).sql e.values) ∧
    ∀ mode,
      compileDynamic ⟨mode, .lvalue, residue⟩ e = compileDynamic ⟨mode, .rvalue, residue'⟩ e := by
  constructor
  · intro hnone
    have hmem : .placeholder ∉ e.origins := by
      rw [placeholder_mem_origins_iff, hnone]
      exact Bool.false_ne_true
    have hagree : Agree floats e.values (compile ⟨.inline, category, residue⟩ e).2
        (compile ⟨.sink, category', residue'⟩ e).2 := agree_compile e hmem
    exact ⟨hagree.sink, hagree.count, hagree.text⟩
  · intro mode
    rw [compileDynamic, compileDynamic, compile_category mode e]

theorem inline_agrees_where :
    (usersWhere (ageOver 18)).any Node.isParamPlaceholder = false ∧
    renderAll default (compileDynamic ⟨.inline, .lvalue, id⟩ (usersWhere (ageOver 18))).sql =
      substitute default (compileDynamic ⟨.sink, .rvalue, fun _ => .monostate⟩
        (usersWhere (ageOver 18))).sql [.int32 18] :=
  ⟨by decide, ((inline_agrees_with_sink default (usersWhere (ageOver 18)) .lvalue .rvalue id
    fun _ => .monostate).1 (by decide)).2.2⟩

end Demiplane.Query

import Mathlib.Data.List.Nodup
import Demiplane.Query.Lexing

/-!
The numbers of the parameters. In Tuple mode one counter numbers everything that is
written as a parameter, while only the literals come back in the tuple; in Sink mode the
values are numbered by the size of the sink and the placeholders by the counter.
-/

namespace Demiplane.Query

open Text Sql Sql.Lexer

/-! ### Parameters of a tree and of a text -/

/-- What the parameters of a tree stand for, in the order in which they are written. -/
def Node.origins : {k : Arity} → Node k → List Origin
  | _, .literal _ value _ => [.literal value]
  | _, .paramPlaceholder => [.placeholder]
  | _, .column _ | _, .nullLiteral | _, .aggregateExpr _ _ _ => []
  | _, .binaryExpr _ left right => left.origins ++ right.origins
  | _, .unaryExpr _ operand => operand.origins
  | _, .betweenExpr operand lower upper => operand.origins ++ lower.origins ++ upper.origins
  | _, .inListExpr operand values => operand.origins ++ values.origins
  | _, .subquery query _ => query.origins
  | _, .existsExpr query => query.origins
  | _, .selectExpr _ columns => columns.origins
  | _, .fromTableExpr select _ _ => select.origins
  | _, .fromCteExpr select _ query _ => query.origins ++ select.origins
  | _, .whereExpr query condition => query.origins ++ condition.origins
  | _, .groupByColumnExpr query _ => query.origins
  | _, .groupByQueryExpr query criteria => query.origins ++ criteria.origins
  | _, .havingExpr query condition => query.origins ++ condition.origins
  | _, .orderByExpr query _ => query.origins
  | _, .limitExpr query _ _ => query.origins
  | _, .joinExpr query onCondition _ _ _ => query.origins ++ onCondition.origins
  | _, .insertExpr _ _ rows => rows.flatten.map .stored
  | _, .updateExpr _ assignments => assignments.map fun a => .stored a.2
  | _, .updateWhereExpr _ assignments condition =>
      (assignments.map fun a => .stored a.2) ++ condition.origins
  | _, .deleteWhereExpr _ condition => condition.origins
  | _, .setOpExpr left right _ => left.origins ++ right.origins
  | _, .caseExpr whens _ => whens.origins
  | _, .caseExprWithElse whens otherwise _ => whens.origins ++ otherwise.origins
  | _, .cteExpr _ query _ => query.origins
  | _, .deleteExpr _ | _, .createTableExpr _ _ | _, .dropTableExpr _ _ _ => []
  | _, .nil | _, .noWhen => []
  | _, .cons head tail => head.origins ++ tail.origins
  | _, .when condition value rest => condition.origins ++ value.origins ++ rest.origins

theorem holes_template {k : Arity} (e : Node k) (isFirst : Bool) :
    holes (template e isFirst) = e.origins := by
  induction e generalizing isFirst with
  | unaryExpr op operand ih =>
    simp only [template, Node.origins]
    split_ifs <;> simp [ih]
  | cons head tail ihh iht => cases isFirst <;> simp [template, Node.origins, ihh, iht]
  | _ => simp [template, Node.origins, *]

def Origin.value? : Origin → Option FieldValue
  | .literal value | .stored value => some value
  | .placeholder => none

def Piece.occurrence? : Piece → Option (Origin × ℕ)
  | .param index origin => some (origin, index)
  | _ => none

/-- The parameters of a text from left to right, each with its number. -/
def occurrences (sql : List Piece) : List (Origin × ℕ) := sql.filterMap Piece.occurrence?

/-- The values among them that `f` picks. -/
def bound (f : Origin → Option FieldValue) (sql : List Piece) : List (FieldValue × ℕ) :=
  (occurrences sql).filterMap fun o => (f o.1).map fun value => (value, o.2)

def placeholder? : Token → Option ℕ
  | .param digits => some (number digits)
  | _ => none

/-- The numbers of the parameters that the server reads. -/
def placeholders (t : Text) : List ℕ := (lex t).filterMap placeholder?

theorem occurrences_append (sql more : List Piece) :
    occurrences (sql ++ more) = occurrences sql ++ occurrences more :=
  List.filterMap_append

theorem occurrences_fixed (p : Fixed) : occurrences [p.piece] = [] := by
  cases p <;> rfl

theorem occurrences_param (index : ℕ) (origin : Origin) :
    occurrences [.param index origin] = [(origin, index)] := rfl

/-! ### Reading the numbers back -/

theorem placeholder?_of_isFixed {t : Token} (h : isFixed t = true) : placeholder? t = none := by
  cases t with
  | param digits => cases h
  | _ => rfl

theorem IsSigned.placeholders {t : Text} (h : IsSigned t) :
    (scan t).filterMap placeholder? = [] := by
  obtain ⟨mode, hmode, hrun⟩ := h
  have hpending : (pending mode).filterMap placeholder? = [] := by
    cases mode with
    | word acc => rfl
    | number acc => rfl
    | stringEnd kind acc => rfl
    | _ => cases hmode
  rcases hrun with hrun | hrun
  · rwa [scan, hrun]
  · rwa [scan, hrun, State.flush, List.singleton_append, List.filterMap_cons_none rfl]

theorem Piece.placeholders_tokens (floats : FloatFormat) {p : Piece} {e : Edge}
    (h : p.shape.edge = some e) :
    (p.tokens floats).filterMap placeholder? = (occurrences [p]).map Prod.snd := by
  cases p with
  | text s =>
    refine List.filterMap_eq_nil_iff.mpr fun t ht => ?_
    exact placeholder?_of_isFixed ((fixed_of_textEdge h).2 t ht)
  | raw t => cases h
  | identifier name =>
    rw [Piece.tokens, scan, Piece.render, run_quoteIdentifier]
    rfl
  | number n =>
    rw [Piece.tokens, Piece.render, Gears.constexprToString_eq]
    exact (isConstant_decimal n).signed.placeholders
  | value v => exact (isSigned_formatValue floats v).placeholders
  | param index origin =>
    simp [Piece.tokens, scan, Piece.render, run_placeholder, State.flush, pending, placeholder?,
      occurrences, Piece.occurrence?, number_decimal]

theorem placeholders_pieces (floats : FloatFormat) {ps : List Piece} {e : Edge}
    (h : (trail e (ps.map Piece.shape)).isSome = true) :
    (ps.flatMap (Piece.tokens floats)).filterMap placeholder? =
      (occurrences ps).map Prod.snd := by
  induction ps generalizing e with
  | nil => rfl
  | cons p ps ih =>
    obtain ⟨-, e', hedge, hrest⟩ := trail_cons_isSome.mp h
    rw [List.flatMap_cons, List.filterMap_append, Piece.placeholders_tokens floats hedge,
      ih hrest, ← List.map_append, ← occurrences_append, List.singleton_append]

/-- The server reads the numbers that were written. -/
theorem placeholders_text (floats : FloatFormat) (cfg : Setting) {e : Expression}
    (h : e.createsTable = false) :
    placeholders (renderAll floats (compile cfg e).2.sql) =
      (occurrences (compile cfg e).2.sql).map Prod.snd := by
  rw [placeholders, lex_compile floats cfg h]
  exact placeholders_pieces floats (trail_compile cfg h)

/-! ### Tuple mode -/

section

variable {category : ValueCategory} {residue : FieldValue → FieldValue}

theorem fill_tuple (slots : List Slot) (v : Visitor) :
    occurrences (fill ⟨.tuple, category, residue⟩ slots v).sql =
      occurrences v.sql ++ (holes slots).zipIdx (v.paramCount + 1) := by
  induction slots generalizing v with
  | nil => simp
  | cons s slots ih =>
    rw [fill_cons, ih]
    rcases s with p | (value | value | _)
    · change occurrences (v.sql ++ [p.piece]) ++ _ = _
      rw [occurrences_append, occurrences_fixed, List.append_nil]
      rfl
    all_goals
      change occurrences (v.sql ++ [.param (v.paramCount + 1) _]) ++ _ = _
      rw [occurrences_append, occurrences_param, List.append_assoc]
      rfl

theorem occurrences_tuple (e : Expression) :
    occurrences (compile ⟨.tuple, category, residue⟩ e).2.sql = e.origins.zipIdx 1 := by
  rw [compile_eq, visit_eq, fill_tuple, holes_template]
  rfl

theorem params_tuple (e : Expression) :
    (compile ⟨.tuple, category, residue⟩ e).1 = e.origins.filterMap Origin.literal? := by
  rw [compile_eq, visit_eq, captured, if_pos rfl, literals, holes_template]

/-! ### Sink mode -/

/-- The numbers that the parameters get when `size` values and `count` placeholders have
been numbered before. -/
def sinkNumbers (size count : ℕ) : List Origin → List (Origin × ℕ)
  | [] => []
  | .placeholder :: os => (.placeholder, count + 1) :: sinkNumbers size (count + 1) os
  | o :: os => (o, size + 1) :: sinkNumbers (size + 1) count os

/-- What filling holes of the origins `os` does to the visitor. -/
structure Sinks (os : List Origin) (v w : Visitor) : Prop where
  occurrences : occurrences w.sql =
    occurrences v.sql ++ sinkNumbers v.sink.entries.length v.paramCount os
  valid : w.sink.Valid
  entries : w.sink.entries = v.sink.entries ++ (os.filterMap Origin.value?).map Params.encode
  count : w.paramCount = v.paramCount + os.count .placeholder

theorem sinkNumbers_append (size count : ℕ) (os more : List Origin) :
    sinkNumbers size count (os ++ more) = sinkNumbers size count os ++
      sinkNumbers (size + (os.filterMap Origin.value?).length) (count + os.count .placeholder)
        more := by
  induction os generalizing size count with
  | nil => rfl
  | cons o os ih =>
    cases o <;>
      simp [sinkNumbers, ih, Origin.value?, List.filterMap_cons, Nat.add_assoc, Nat.add_comm 1]

theorem sinkNumbers_of_values {os : List Origin} (h : ∀ o ∈ os, o.value?.isSome = true)
    (size count : ℕ) : sinkNumbers size count os = os.zipIdx (size + 1) := by
  induction os generalizing size with
  | nil => rfl
  | cons o os ih =>
    have hrest := ih (fun o' ho' => h o' (List.mem_cons_of_mem _ ho')) (size + 1)
    cases o with
    | placeholder => cases h _ List.mem_cons_self
    | literal value => exact congrArg _ hrest
    | stored value => exact congrArg _ hrest

theorem sinkNumbers_of_placeholders {os : List Origin} (h : ∀ o ∈ os, o = .placeholder)
    (size count : ℕ) : sinkNumbers size count os = os.zipIdx (count + 1) := by
  induction os generalizing count with
  | nil => rfl
  | cons o os ih =>
    obtain rfl := h o List.mem_cons_self
    exact congrArg _ (ih (fun o' ho' => h o' (List.mem_cons_of_mem _ ho')) (count + 1))

theorem placeholder_mem_sinkNumbers {os : List Origin} (h : .placeholder ∈ os) (size count : ℕ) :
    (.placeholder, count + 1) ∈ sinkNumbers size count os := by
  induction os generalizing size with
  | nil => cases h
  | cons o os ih =>
    cases o with
    | placeholder => exact List.mem_cons_self
    | literal value => exact List.mem_cons_of_mem _ (ih (by simpa using h) _)
    | stored value => exact List.mem_cons_of_mem _ (ih (by simpa using h) _)

theorem value_mem_sinkNumbers {os : List Origin} (h : ∃ o ∈ os, o ≠ .placeholder)
    (size count : ℕ) : ∃ o ≠ .placeholder, (o, size + 1) ∈ sinkNumbers size count os := by
  induction os generalizing count with
  | nil => simp at h
  | cons o os ih =>
    cases o with
    | placeholder =>
      obtain ⟨o', hne, hmem⟩ := ih (by simpa using h) (count + 1)
      exact ⟨o', hne, List.mem_cons_of_mem _ hmem⟩
    | literal value => exact ⟨.literal value, nofun, List.mem_cons_self⟩
    | stored value => exact ⟨.stored value, nofun, List.mem_cons_self⟩

/-- The values and the placeholders are numbered apart, so both begin at the same number. -/
theorem nodup_sinkNumbers_iff {os : List Origin} :
    ((sinkNumbers 0 0 os).map Prod.snd).Nodup ↔
      .placeholder ∉ os ∨ ∀ o ∈ os, o = .placeholder := by
  constructor
  · intro hnodup
    by_contra hboth
    rw [not_or, not_not] at hboth
    obtain ⟨hplaceholder, hvalue⟩ := hboth
    push Not at hvalue
    obtain ⟨o, hne, hmem⟩ := value_mem_sinkNumbers hvalue 0 0
    have heq := List.inj_on_of_nodup_map hnodup hmem
      (placeholder_mem_sinkNumbers hplaceholder 0 0) rfl
    exact hne (congrArg Prod.fst heq)
  · rintro (hnone | hall)
    · have hvalue : ∀ o ∈ os, o.value?.isSome = true := by
        intro o ho
        cases o with
        | placeholder => exact absurd ho hnone
        | _ => rfl
      rw [sinkNumbers_of_values hvalue, List.zipIdx_map_snd]
      exact List.nodup_range'
    · rw [sinkNumbers_of_placeholders hall, List.zipIdx_map_snd]
      exact List.nodup_range'

theorem bound_sinkNumbers (os : List Origin) (size count : ℕ) :
    ((sinkNumbers size count os).filterMap fun o => o.1.value?.map fun value => (value, o.2)) =
      (os.filterMap Origin.value?).zipIdx (size + 1) := by
  induction os generalizing size count with
  | nil => rfl
  | cons o os ih =>
    cases o with
    | placeholder => exact ih size (count + 1)
    | literal value => exact congrArg _ (ih (size + 1) count)
    | stored value => exact congrArg _ (ih (size + 1) count)

theorem Sinks.trans {os more : List Origin} {u v w : Visitor} (h : Sinks os u v)
    (hmore : Sinks more v w) : Sinks (os ++ more) u w where
  occurrences := by
    rw [hmore.occurrences, h.occurrences, h.entries, h.count, sinkNumbers_append]
    simp
  valid := hmore.valid
  entries := by simp [hmore.entries, h.entries]
  count := by simp [hmore.count, h.count, Nat.add_assoc]

theorem sinks_value {v : Visitor} (h : v.sink.Valid) {origin : Origin} {value : FieldValue}
    (hvalue : origin.value? = some value) :
    Sinks [origin] v ⟨v.sql ++ [.param (v.sink.push value).2 origin], (v.sink.push value).1,
      v.paramCount⟩ := by
  obtain ⟨hvalid, hentries⟩ := Params.entries_bindOne h value
  have hne : origin ≠ .placeholder := by
    rintro rfl
    cases hvalue
  refine ⟨?_, hvalid, ?_, ?_⟩
  · rw [occurrences_append, occurrences_param, Params.push_snd h]
    cases origin with
    | placeholder => exact absurd rfl hne
    | _ => rfl
  · simpa [hvalue, Params.push] using hentries
  · simp [hne]

theorem sinks_fillOne (s : Slot) {v : Visitor} (h : v.sink.Valid) :
    Sinks s.origin?.toList v ((fillOne ⟨.sink, category, residue⟩ s).run v).2 := by
  rcases s with p | (value | value | _)
  · refine ⟨(occurrences_append _ _).trans ?_, h, (List.append_nil _).symm, rfl⟩
    rw [occurrences_fixed]
    rfl
  · exact sinks_value h rfl
  · exact sinks_value h rfl
  · exact ⟨occurrences_append _ _, h, (List.append_nil _).symm, rfl⟩

theorem sinks_fill (slots : List Slot) {v : Visitor} (h : v.sink.Valid) :
    Sinks (holes slots) v (fill ⟨.sink, category, residue⟩ slots v) := by
  induction slots generalizing v with
  | nil => exact ⟨by simp [sinkNumbers], h, by simp, rfl⟩
  | cons s slots ih =>
    have hone : Sinks s.origin?.toList v ((fillOne ⟨.sink, category, residue⟩ s).run v).2 :=
      sinks_fillOne s h
    have hrest := hone.trans (ih hone.valid)
    cases s <;> exact hrest

theorem sinks_compile (e : Expression) :
    Sinks e.origins .fresh (compile ⟨.sink, category, residue⟩ e).2 := by
  rw [compile_eq, visit_eq, ← holes_template e true]
  exact sinks_fill _ Params.valid_empty

end

/-! ### What is bound -/

/-- A static query with `P`, at every capacity that the text fits in. -/
def StaticYields (floats : FloatFormat) (cfg : Setting) (e : Expression)
    (P : CompiledStaticQuery → Prop) : Prop :=
  ∀ maxLen, (renderAll floats (compile cfg e).2.sql).length ≤ maxLen →
    ∃ q, compileStatic floats cfg maxLen e = some q ∧ P q

theorem staticYields_iff {floats : FloatFormat} {cfg : Setting} {e : Expression}
    {P : CompiledStaticQuery → Prop} :
    StaticYields floats cfg e P ↔ P ⟨(compile cfg e).2.sql, (compile cfg e).1⟩ := by
  have hfit : ∀ {maxLen}, (renderAll floats (compile cfg e).2.sql).length ≤ maxLen →
      compileStatic floats cfg maxLen e = some ⟨(compile cfg e).2.sql, (compile cfg e).1⟩ :=
    fun hfits => if_pos hfits
  constructor
  · intro h
    obtain ⟨q, hq, hP⟩ := h _ le_rfl
    rw [hfit le_rfl] at hq
    exact Option.some.inj hq ▸ hP
  · intro hP maxLen hfits
    exact ⟨_, hfit hfits, hP⟩

/-- The parameters are numbered from 1 on, and each has its value at its number. -/
structure TupleBinds (q : CompiledStaticQuery) : Prop where
  numbers : (occurrences q.sql).map Prod.snd = List.range' 1 q.params.length
  values : (occurrences q.sql).map (fun o => o.1.value?) = q.params.map some

/-- The same for a packet, whose four arrays are of one length. -/
structure SinkBinds (q : CompiledDynamicQuery) : Prop where
  numbers : (occurrences q.sql).map Prod.snd = List.range' 1 q.packet.values.length
  lengths : q.packet.lengths.length = q.packet.values.length
  formats : q.packet.formats.length = q.packet.values.length
  oids : q.packet.oids.length = q.packet.values.length
  entries : (occurrences q.sql).map (fun o => o.1.value?.map Params.encode) =
    q.packet.entries.map some

/-- No number is used twice, and the literals are numbered by their places in the tuple. -/
structure TupleApart (q : CompiledStaticQuery) : Prop where
  distinct : ((occurrences q.sql).map Prod.snd).Nodup
  positions : bound Origin.literal? q.sql = q.params.zipIdx 1

/-- No number is used twice, and the values are numbered by their places in the packet. -/
structure SinkApart (q : CompiledDynamicQuery) : Prop where
  distinct : ((occurrences q.sql).map Prod.snd).Nodup
  positions : (bound Origin.value? q.sql).map (fun o => (Params.encode o.1, o.2)) =
    q.packet.entries.zipIdx 1

def Origin.isLiteral (o : Origin) : Bool := o.literal?.isSome

theorem isLiteral_iff {o : Origin} (hplaceholder : o ≠ .placeholder) :
    o.literal?.isSome = true ↔ ∀ value, o ≠ .stored value := by
  cases o with
  | literal value => simp [Origin.literal?]
  | stored value => simp [Origin.literal?]
  | placeholder => exact absurd rfl hplaceholder

theorem value?_of_literal? {o : Origin} (h : o.literal?.isSome = true) : o.value? = o.literal? := by
  cases o with
  | literal value => rfl
  | _ => cases h

theorem map_filterMap_of_isSome {f : Origin → Option FieldValue} {os : List Origin}
    (h : ∀ o ∈ os, (f o).isSome = true) : os.map f = (os.filterMap f).map some := by
  induction os with
  | nil => rfl
  | cons o os ih =>
    obtain ⟨value, hvalue⟩ := Option.isSome_iff_exists.mp (h o List.mem_cons_self)
    rw [List.filterMap_cons_some hvalue, List.map_cons, List.map_cons, hvalue,
      ih fun o' ho' => h o' (List.mem_cons_of_mem _ ho')]

/-- One counter numbers the literals by their places among themselves as long as nothing
else comes before a literal. -/
theorem bound_zipIdx_iff {os : List Origin} (n : ℕ) :
    ((os.zipIdx n).filterMap fun o => o.1.literal?.map fun value => (value, o.2)) =
        (os.filterMap Origin.literal?).zipIdx n ↔
      os.Pairwise fun a b => b.isLiteral → a.isLiteral := by
  induction os generalizing n with
  | nil => simp
  | cons o os ih =>
    rw [List.pairwise_cons, List.zipIdx_cons]
    cases hliteral : o.literal? with
    | some value =>
      rw [List.filterMap_cons_some hliteral, List.filterMap_cons_some (by rw [hliteral]; rfl),
        List.zipIdx_cons, List.cons_inj_right, ih]
      simp [Origin.isLiteral, hliteral]
    | none =>
      rw [List.filterMap_cons_none hliteral, List.filterMap_cons_none (by rw [hliteral]; rfl)]
      have hone : (∀ b ∈ os, b.isLiteral → o.isLiteral) ↔ os.filterMap Origin.literal? = [] := by
        simp [Origin.isLiteral, hliteral, List.filterMap_eq_nil_iff]
      rw [hone]
      constructor
      · intro heq
        have hnil : os.filterMap Origin.literal? = [] := by
          -- the first literal would have the number of `o`, which is smaller than all that follow
          by_contra hne
          obtain ⟨value, values, hcons⟩ := List.exists_cons_of_ne_nil hne
          rw [hcons, List.zipIdx_cons] at heq
          have hmem : (value, n) ∈ (os.zipIdx (n + 1)).filterMap fun o =>
              o.1.literal?.map fun value => (value, o.2) := heq ▸ List.mem_cons_self
          obtain ⟨⟨o', k⟩, hk, hvalue⟩ := List.mem_filterMap.mp hmem
          obtain ⟨_, _, hpair⟩ := Option.map_eq_some_iff.mp hvalue
          have hle := (List.mem_zipIdx hk).1
          have hkn : k = n := congrArg Prod.snd hpair
          omega
        refine ⟨hnil, List.pairwise_of_forall_mem_list ?_⟩
        intro a _ b hb hlit
        simp [Origin.isLiteral, List.filterMap_eq_nil_iff.mp hnil b hb] at hlit
      · rintro ⟨hnil, -⟩
        rw [hnil, List.zipIdx_nil, List.filterMap_eq_nil_iff]
        rintro ⟨o', k⟩ hk
        rw [List.filterMap_eq_nil_iff.mp hnil o' (List.fst_mem_of_mem_zipIdx hk)]
        rfl

/-- In Tuple mode a query without placeholders binds its parameters unless values are
inserted or assigned, which are numbered and do not come back. -/
theorem tuple_params_iff (floats : FloatFormat) (category : ValueCategory)
    (residue : FieldValue → FieldValue) (e : Expression) (h : .placeholder ∉ e.origins) :
    (StaticYields floats ⟨.tuple, category, residue⟩ e TupleBinds ↔
      ∀ value, .stored value ∉ e.origins) ∧
    (e.createsTable = false → StaticYields floats ⟨.tuple, category, residue⟩ e fun q =>
      placeholders (renderAll floats q.sql) = (occurrences q.sql).map Prod.snd) := by
  have hliteral : (∀ value, .stored value ∉ e.origins) ↔
      ∀ o ∈ e.origins, o.literal?.isSome = true := by
    constructor
    · intro hstored o ho
      exact (isLiteral_iff (fun heq => h (heq ▸ ho))).mpr fun value heq => hstored value (heq ▸ ho)
    · intro hall value hmem
      cases hall _ hmem
  constructor
  · rw [staticYields_iff, hliteral]
    constructor
    · intro hbinds
      have hlength := congrArg List.length hbinds.numbers
      rw [occurrences_tuple, params_tuple] at hlength
      exact List.filterMap_length_eq_length.mp (by simpa using hlength.symm)
    · intro hall
      constructor
      · rw [occurrences_tuple, params_tuple, List.filterMap_length_eq_length.mpr hall]
        simp
      · rw [occurrences_tuple, params_tuple, ← map_filterMap_of_isSome hall]
        calc (e.origins.zipIdx 1).map (fun o => o.1.value?)
            = ((e.origins.zipIdx 1).map Prod.fst).map Origin.value? := by rw [List.map_map]; rfl
          _ = e.origins.map Origin.value? := by rw [List.zipIdx_map_fst]
          _ = e.origins.map Origin.literal? :=
            List.map_congr_left fun o ho => value?_of_literal? (hall o ho)
  · intro hcreate
    exact staticYields_iff.mpr (placeholders_text floats _ hcreate)

/-- `INSERT INTO "users" ("age") VALUES (18)`. -/
def insertAge : Expression := .insertExpr (.name (ascii "users")) [ascii "age"] [[.int32 18]]

def column (name : String) : Expression := .column (.column (ascii name) [] [])

/-- `SELECT "id" FROM "users" WHERE condition`. -/
def usersWhere (condition : Expression) : Expression :=
  .whereExpr (.fromTableExpr (.selectExpr false (.cons (column "id") .nil))
    (.name (ascii "users")) []) condition

def ageOver (age : Int32) : Expression :=
  .binaryExpr .greater (column "age") (.literal .other (.int32 age) [])

theorem tuple_params_where :
    StaticYields default ⟨.tuple, .rvalue, id⟩ (usersWhere (ageOver 18)) TupleBinds :=
  (tuple_params_iff default .rvalue id (usersWhere (ageOver 18)) (by decide)).1.mpr
    (by simp [usersWhere, ageOver, column, Node.origins])

/-- The text asks for one parameter, and the tuple is empty. -/
theorem insert_params_lost :
    .placeholder ∉ insertAge.origins ∧
    ∃ q, compileStatic default ⟨.tuple, .lvalue, id⟩ 1024 insertAge = some q ∧
      renderAll default q.sql = ascii "INSERT INTO \"users\" (\"age\") VALUES ($1)" ∧
      q.params = [] ∧ ¬TupleBinds q := by
  refine ⟨by decide, ⟨(compile ⟨.tuple, .lvalue, id⟩ insertAge).2.sql, []⟩, by decide, by decide,
    rfl, ?_⟩
  intro hbinds
  exact absurd hbinds.numbers (by decide)

/-- In Sink mode a query without placeholders binds every literal, inserted value and
assigned value, from an lvalue or from an rvalue. -/
theorem sink_params (floats : FloatFormat) (category : ValueCategory)
    (residue : FieldValue → FieldValue) (e : Expression) (h : .placeholder ∉ e.origins) :
    SinkBinds (compileDynamic ⟨.sink, category, residue⟩ e) ∧
    (occurrences (compileDynamic ⟨.sink, category, residue⟩ e).sql).map Prod.fst = e.origins ∧
    (e.createsTable = false →
      placeholders (renderAll floats (compileDynamic ⟨.sink, category, residue⟩ e).sql) =
        (occurrences (compileDynamic ⟨.sink, category, residue⟩ e).sql).map Prod.snd) := by
  have hsinks : Sinks e.origins .fresh (compile ⟨.sink, category, residue⟩ e).2 := sinks_compile e
  have hvalue : ∀ o ∈ e.origins, o.value?.isSome = true := by
    intro o ho
    cases o with
    | placeholder => exact absurd ho h
    | _ => rfl
  have hoccurrences : occurrences (compile ⟨.sink, category, residue⟩ e).2.sql =
      e.origins.zipIdx 1 :=
    hsinks.occurrences.trans (sinkNumbers_of_values hvalue 0 0)
  have hentries : (compile ⟨.sink, category, residue⟩ e).2.sink.entries =
      (e.origins.filterMap Origin.value?).map Params.encode := hsinks.entries
  have hlength : (compile ⟨.sink, category, residue⟩ e).2.sink.values.length =
      e.origins.length := by
    rw [← hsinks.valid.length_entries, hentries, List.length_map,
      List.filterMap_length_eq_length.mpr hvalue]
  refine ⟨⟨?_, hsinks.valid.lengths, hsinks.valid.formats, hsinks.valid.oids, ?_⟩, ?_, ?_⟩
  · rw [compileDynamic, hoccurrences, hlength]
    simp
  · rw [compileDynamic, hoccurrences, hentries]
    calc (e.origins.zipIdx 1).map (fun o => o.1.value?.map Params.encode)
        = (((e.origins.zipIdx 1).map Prod.fst).map Origin.value?).map
            (Option.map Params.encode) := by rw [List.map_map, List.map_map]; rfl
      _ = (((e.origins.filterMap Origin.value?).map some)).map (Option.map Params.encode) := by
          rw [List.zipIdx_map_fst, map_filterMap_of_isSome hvalue]
      _ = ((e.origins.filterMap Origin.value?).map Params.encode).map some := by
          rw [List.map_map, List.map_map]
          rfl
  · rw [compileDynamic, hoccurrences, List.zipIdx_map_fst]
  · exact placeholders_text floats _

theorem sink_params_where :
    SinkBinds (compileDynamic ⟨.sink, .rvalue, fun _ => .monostate⟩ (usersWhere (ageOver 18))) ∧
    occurrences (compileDynamic ⟨.sink, .rvalue, fun _ => .monostate⟩
      (usersWhere (ageOver 18))).sql = [(.literal (.int32 18), 1)] :=
  ⟨(sink_params default .rvalue (fun _ => .monostate) (usersWhere (ageOver 18)) (by decide)).1,
    by decide⟩

/-- `CREATE TABLE "users" ("age" integer DEFAULT $1)`. -/
def defaultParam : Expression :=
  .createTableExpr (.dynamic (some ⟨ascii "users",
    [⟨ascii "age", ascii "integer", true, false, false, false, [], [], ascii "$1"⟩]⟩)) false

/-- A default is written as it stands: the text asks for a parameter that is never pushed. -/
theorem default_param_unbound :
    .placeholder ∉ defaultParam.origins ∧
    placeholders (renderAll default (compileDynamic ⟨.sink, .lvalue, id⟩ defaultParam).sql) = [1] ∧
    (compileDynamic ⟨.sink, .lvalue, id⟩ defaultParam).packet.values = [] := by
  refine ⟨by decide, by decide, rfl⟩

/-- Placeholders and literals keep apart in Tuple mode exactly if no literal is written
after a placeholder, an inserted or an assigned value, and in Sink mode exactly if there
are not both placeholders and values. -/
theorem placeholders_apart_iff (floats : FloatFormat) (category : ValueCategory)
    (residue : FieldValue → FieldValue) (e : Expression) :
    (StaticYields floats ⟨.tuple, category, residue⟩ e TupleApart ↔
      e.origins.Pairwise fun a b => b.isLiteral → a.isLiteral) ∧
    (SinkApart (compileDynamic ⟨.sink, category, residue⟩ e) ↔
      .placeholder ∉ e.origins ∨ ∀ o ∈ e.origins, o = .placeholder) ∧
    (e.createsTable = false → ∀ mode,
      placeholders (renderAll floats (compile ⟨mode, category, residue⟩ e).2.sql) =
        (occurrences (compile ⟨mode, category, residue⟩ e).2.sql).map Prod.snd) := by
  refine ⟨?_, ?_, fun hcreate mode => placeholders_text floats _ hcreate⟩
  · have hdistinct : ((e.origins.zipIdx 1).map Prod.snd).Nodup := by
      rw [List.zipIdx_map_snd]
      exact List.nodup_range'
    rw [staticYields_iff, ← bound_zipIdx_iff 1, ← occurrences_tuple, ← params_tuple]
    constructor
    · exact TupleApart.positions
    · intro hpositions
      exact ⟨by rwa [occurrences_tuple], hpositions⟩
  · have hsinks : Sinks e.origins .fresh (compile ⟨.sink, category, residue⟩ e).2 :=
      sinks_compile e
    have hoccurrences : occurrences (compile ⟨.sink, category, residue⟩ e).2.sql =
        sinkNumbers 0 0 e.origins := hsinks.occurrences
    have hentries : (compile ⟨.sink, category, residue⟩ e).2.sink.entries =
        (e.origins.filterMap Origin.value?).map Params.encode := hsinks.entries
    rw [← nodup_sinkNumbers_iff, ← hoccurrences]
    constructor
    · exact SinkApart.distinct
    · intro hdistinct
      refine ⟨hdistinct, ?_⟩
      rw [compileDynamic, bound, hoccurrences, bound_sinkNumbers, hentries]
      exact (List.zipIdx_map ..).symm

/-- `("published" = ?) AND ("age" > 18)`. -/
def publishedOver : Expression :=
  .binaryExpr .and (.binaryExpr .equal (column "published") .paramPlaceholder) (ageOver 18)

/-- The literal is the first of the tuple and has the number 2. In Sink mode it has the
number of the placeholder. -/
theorem placeholder_before_literal :
    (∃ q, compileStatic default ⟨.tuple, .lvalue, id⟩ 1024 (usersWhere publishedOver) = some q ∧
      occurrences q.sql = [(.placeholder, 1), (.literal (.int32 18), 2)] ∧
      q.params = [.int32 18] ∧ ¬TupleApart q) ∧
    occurrences (compileDynamic ⟨.sink, .lvalue, id⟩ (usersWhere publishedOver)).sql =
      [(.placeholder, 1), (.literal (.int32 18), 1)] ∧
    ¬SinkApart (compileDynamic ⟨.sink, .lvalue, id⟩ (usersWhere publishedOver)) := by
  refine ⟨⟨⟨(compile ⟨.tuple, .lvalue, id⟩ (usersWhere publishedOver)).2.sql, [.int32 18]⟩,
    by decide, by decide, rfl, ?_⟩, by decide, ?_⟩
  · intro hapart
    exact absurd hapart.positions (by decide)
  · intro hapart
    exact absurd hapart.distinct (by decide)

end Demiplane.Query

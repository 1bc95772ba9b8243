import Demiplane.Sql.Precedence

/-!
Texts of terms, read back. Every term that fits the precedences is what its text is read
as (`parse_eq_some_iff`), and the text of a term determines its parentheses (`unique`), so
that a text means what it was written for exactly if the term fits (`parse_strip_iff`).
-/

namespace Demiplane.Sql

/-! ### More fuel -/

/-- What is read with fuel `n` is read with more. -/
structure GrowsAt (n : ℕ) : Prop where
  expr {zone : Zone} {above : ℕ} {ts : List Symbol} {r : Term .one × List Symbol}
    (h : parseExpr n zone above ts = some r) : parseExpr (n + 1) zone above ts = some r
  primary {zone : Zone} {ts : List Symbol} {r : Term .one × List Symbol}
    (h : parsePrimary n zone ts = some r) : parsePrimary (n + 1) zone ts = some r
  more {zone : Zone} {above : ℕ} {left : Term .one} {ts : List Symbol}
    {r : Term .one × List Symbol} (h : parseRest n zone above left ts = some r) :
    parseRest (n + 1) zone above left ts = some r
  values {ts : List Symbol} {r : Term .list × List Symbol} (h : parseValues n ts = some r) :
    parseValues (n + 1) ts = some r

section

variable {n : ℕ} {zone : Zone} {above : ℕ} {ts : List Symbol} {left : Term .one}
  {r : Term .one × List Symbol}

theorem GrowsAt.parsePrimary_succ (hn : GrowsAt n) (h : parsePrimary (n + 1) zone ts = some r) :
    parsePrimary (n + 2) zone ts = some r := by
  rcases ts with _ | ⟨s, ts⟩
  · exact h
  cases s with
  | openParen =>
    obtain ⟨p, hexpr, hclose⟩ := Option.bind_eq_some_iff.mp h
    exact Option.bind_eq_some_iff.mpr ⟨p, hn.expr hexpr, hclose⟩
  | key k =>
    cases k with
    | not =>
      cases zone with
      | full =>
        obtain ⟨p, hexpr, heq⟩ := Option.map_eq_some_iff.mp h
        exact Option.map_eq_some_iff.mpr ⟨p, hn.expr hexpr, heq⟩
      | bound => exact h
    | exist =>
      rcases ts with _ | ⟨s, ts⟩
      · exact h
      · cases s <;> exact h
    | _ => exact h
  | _ => exact h

theorem GrowsAt.parseRest_succ (hn : GrowsAt n)
    (h : parseRest (n + 1) zone above left ts = some r) :
    parseRest (n + 2) zone above left ts = some r := by
  rw [parseRest] at h ⊢
  cases hop : readOperator zone ts with
  | none => simpa only [hop] using h
  | some p =>
    obtain ⟨op, rest⟩ := p
    simp only [hop] at h ⊢
    split_ifs at h ⊢
    · exact h
    cases op with
    | binary op =>
      obtain ⟨p, hexpr, hmore⟩ := Option.bind_eq_some_iff.mp h
      exact Option.bind_eq_some_iff.mpr ⟨p, hn.expr hexpr, hn.more hmore⟩
    | isNull negated => exact hn.more h
    | isIn =>
      obtain ⟨p, hvalues, hmore⟩ := Option.bind_eq_some_iff.mp h
      exact Option.bind_eq_some_iff.mpr ⟨p, hn.values hvalues, hn.more hmore⟩
    | between =>
      obtain ⟨lower, hlower, hand⟩ := Option.bind_eq_some_iff.mp h
      obtain ⟨rest', hrest, hand⟩ := Option.bind_eq_some_iff.mp hand
      obtain ⟨upper, hupper, hmore⟩ := Option.bind_eq_some_iff.mp hand
      exact Option.bind_eq_some_iff.mpr ⟨lower, hn.expr hlower,
        Option.bind_eq_some_iff.mpr ⟨rest', hrest,
          Option.bind_eq_some_iff.mpr ⟨upper, hn.expr hupper, hn.more hmore⟩⟩⟩

theorem GrowsAt.parseValues_succ (hn : GrowsAt n) {r : Term .list × List Symbol}
    (h : parseValues (n + 1) ts = some r) : parseValues (n + 2) ts = some r := by
  obtain ⟨⟨value, rest⟩, hexpr, hmore⟩ := Option.bind_eq_some_iff.mp h
  refine Option.bind_eq_some_iff.mpr ⟨(value, rest), hn.expr hexpr, ?_⟩
  rcases rest with _ | ⟨s, rest⟩
  · exact hmore
  cases s with
  | comma =>
    obtain ⟨p, hvalues, heq⟩ := Option.map_eq_some_iff.mp hmore
    exact Option.map_eq_some_iff.mpr ⟨p, hn.values hvalues, heq⟩
  | _ => exact hmore

theorem growsAt (n : ℕ) : GrowsAt n := by
  induction n with
  | zero =>
    constructor
    · intro zone above ts r h
      cases h
    · intro zone ts r h
      cases h
    · intro zone above left ts r h
      cases h
    · intro ts r h
      cases h
  | succ n ih =>
    refine ⟨fun h => ?_, ih.parsePrimary_succ, ih.parseRest_succ, ih.parseValues_succ⟩
    obtain ⟨p, hprimary, hmore⟩ := Option.bind_eq_some_iff.mp h
    exact Option.bind_eq_some_iff.mpr ⟨p, ih.primary hprimary, ih.more hmore⟩

theorem parseExpr_le {m : ℕ} (hle : n ≤ m) (h : parseExpr n zone above ts = some r) :
    parseExpr m zone above ts = some r := by
  induction hle with
  | refl => exact h
  | step _ ih => exact (growsAt _).expr ih

theorem parseRest_le {m : ℕ} (hle : n ≤ m) (h : parseRest n zone above left ts = some r) :
    parseRest m zone above left ts = some r := by
  induction hle with
  | refl => exact h
  | step _ ih => exact (growsAt _).more ih

theorem parseValues_le {m : ℕ} (hle : n ≤ m) {r : Term .list × List Symbol}
    (h : parseValues n ts = some r) : parseValues m ts = some r := by
  induction hle with
  | refl => exact h
  | step _ ih => exact (growsAt _).values ih

end

/-! ### Terms are read -/

section

variable {n : ℕ} {zone : Zone} {above level : ℕ} {ts rest more : List Symbol}
  {left t : Term .one} {r : Term .one × List Symbol}

theorem stops_of_none (h : readOperator zone ts = none) : Stops zone level ts := fun op rest hop =>
  by rw [h] at hop; cases hop

theorem stops_closeParen : Stops zone level (.closeParen :: rest) :=
  stops_of_none (by cases zone <;> rfl)

theorem stops_comma : Stops zone level (.comma :: rest) := stops_of_none (by cases zone <;> rfl)

theorem stops_nil : Stops zone level [] := stops_of_none (by cases zone <;> rfl)

theorem stops_symbols {op : Operator} (hzone : op.InZone zone) (h : Yields op.level level) :
    Stops zone level (op.symbols ++ more) := by
  intro op' rest' hop
  rw [readOperator_symbols hzone] at hop
  cases hop
  exact h

theorem parseRest_stop (h : Stops zone above ts) :
    parseRest (n + 1) zone above t ts = some (t, ts) := by
  rw [parseRest]
  cases hop : readOperator zone ts with
  | none => rfl
  | some p => exact if_pos (h p.1 p.2 hop)

theorem parseRest_operator {op : Operator} (hzone : op.InZone zone) (habove : above < op.level) :
    parseRest (n + 1) zone above left (op.symbols ++ more) =
      match op with
      | .binary op =>
          (parseExpr n zone op.level more).bind fun p =>
            parseRest n zone above (.binary op left p.1) p.2
      | .isNull negated => parseRest n zone above (.isNull negated left) more
      | .isIn =>
          (parseValues n more).bind fun p => parseRest n zone above (.inList left p.1) p.2
      | .between =>
          (parseExpr n .bound 0 more).bind fun lower =>
            (expect (.key .and) lower.2).bind fun rest =>
              (parseExpr n .full 6 rest).bind fun upper =>
                parseRest n zone above (.between left lower.1 upper.1) upper.2 := by
  have hyields : ¬Yields op.level above := by
    unfold Yields
    omega
  rw [parseRest, readOperator_symbols hzone]
  simp only [hyields, habove.ne', if_false]
  cases op <;> rfl

theorem parsePrimary_atom {a : List Symbol} (h : IsAtom a) (hrest : rest.head? ≠ some .dot) :
    parsePrimary (n + 1) zone (a ++ rest) = some (.atom a, rest) := by
  have hatom := h.append hrest
  obtain ⟨s, a, rfl, hs⟩ := h.head
  have hprimary : parsePrimary (n + 1) zone (s :: a ++ rest) =
      (readAtom (s :: a ++ rest)).map fun p => (.atom p.1, p.2) := by
    cases s with
    | key k =>
      cases k with
      | null => rfl
      | _ => cases hs
    | minus => rfl
    | constant t => rfl
    | name t => rfl
    | _ => cases hs
  rw [hprimary, hatom]
  rfl

end

/-- Symbols of a term are read as the term, and the operators behind it follow. -/
def Complete : {k : Extent} → Term k → Prop
  | .one, t => ∀ (zone : Zone) (above : ℕ) (rest : List Symbol) (m : ℕ)
      (r : Term .one × List Symbol), t.Fits → t.InZone zone → above < t.leftLevel →
      Stops zone t.rightLevel rest → rest.head? ≠ some .dot →
      parseRest m zone above t rest = some r →
      parseExpr (m + 3 * t.symbols.length) zone above (t.symbols ++ rest) = some r
  | .list, values => ∀ rest : List Symbol, values.Fits →
      parseValues (3 * values.symbols.length + 2) (values.symbols ++ .closeParen :: rest) =
        some (values, rest)

section

variable {m : ℕ} {zone : Zone} {above : ℕ} {rest more : List Symbol}
  {t : Term .one} {r : Term .one × List Symbol}

/-- A term that nothing goes on with. -/
theorem Complete.alone (h : Complete t) (hfits : t.Fits) (hzone : t.InZone zone)
    (hleft : above < t.leftLevel) (hright : Stops zone t.rightLevel rest)
    (hstop : Stops zone above rest) (hrest : rest.head? ≠ some .dot)
    (hm : 3 * t.symbols.length < m) :
    parseExpr m zone above (t.symbols ++ rest) = some (t, rest) := by
  refine parseExpr_le (n := 1 + 3 * t.symbols.length) (by omega) ?_
  exact h zone above rest 1 (t, rest) hfits hzone hleft hright hrest (parseRest_stop hstop)

/-- The left operand of an operator. -/
theorem Complete.operand (h : Complete t) (op : Operator) (hfits : t.Fits) (hzone : t.InZone zone)
    (hop : op.InZone zone) (hleft : above < t.leftLevel) (hright : Yields op.level t.rightLevel)
    (hmore : parseRest m zone above t (op.symbols ++ more) = some r) :
    parseExpr (m + 3 * t.symbols.length) zone above (t.symbols ++ (op.symbols ++ more)) = some r :=
  h zone above _ m r hfits hzone hleft (stops_symbols hop hright) (op.symbols_head more).1 hmore

theorem parseExpr_primary {n : ℕ} {ts : List Symbol}
    (hprimary : parsePrimary n zone ts = some (t, rest))
    (hmore : parseRest n zone above t rest = some r) :
    parseExpr (n + 1) zone above ts = some r := by
  rw [parseExpr, hprimary]
  exact hmore

end

theorem Term.InZone.binary {op : Connective} {left right : Term .one} {zone : Zone}
    (h : (Term.binary op left right).InZone zone) :
    (Operator.binary op).InZone zone ∧ left.InZone zone ∧ right.InZone zone := by
  cases zone with
  | full => exact ⟨Operator.inZone_full _, left.inZone_full, right.inZone_full⟩
  | bound =>
    have hbound := h rfl
    cases op with
    | compare text => exact ⟨fun _ => ⟨text, rfl⟩, fun _ => hbound.1, fun _ => hbound.2⟩
    | _ => exact hbound.elim

theorem Connective.symbols_length_pos (op : Connective) : 1 ≤ op.symbols.length := by
  rcases op with _ | negated | _ | _
  · exact le_rfl
  · cases negated <;> decide
  · exact le_rfl
  · exact le_rfl

theorem Term.leftLevel_pos {k : Extent} (t : Term k) : 0 < t.leftLevel := by
  induction t with
  | binary op left right ihl ihr =>
    refine lt_min ?_ ihl
    cases op <;> simp [Connective.level]
  | isNull negated operand ih => exact lt_min (by decide) ih
  | between operand lower upper iho ihl ihu => exact lt_min (by decide) iho
  | inList operand values iho ihv => exact lt_min (by decide) iho
  | _ => exact Nat.succ_pos 6

theorem complete_atom (a : List Symbol) : Complete (.atom a) := by
  intro zone above rest m r hfits _ _ _ hrest hmore
  obtain ⟨s, a, rfl, -⟩ := IsAtom.head hfits
  refine parseExpr_le (n := m + 2) ?_ (parseExpr_primary (parsePrimary_atom hfits hrest)
    (parseRest_le (Nat.le_succ m) hmore))
  simp only [Term.symbols, List.length_cons]
  omega

theorem Complete.group {inner : Term .one} (ih : Complete inner) : Complete (.group inner) := by
  intro zone above rest m r hfits _ _ _ _ hmore
  have hinner : parseExpr (m + 3 * inner.symbols.length + 1) .full 0
      (inner.symbols ++ .closeParen :: rest) = some (inner, .closeParen :: rest) :=
    ih.alone hfits inner.inZone_full inner.leftLevel_pos stops_closeParen stops_closeParen
      (by simp) (by omega)
  have hprimary : parsePrimary (m + 3 * inner.symbols.length + 2) zone
      ((Term.group inner).symbols ++ rest) = some (.group inner, rest) := by
    simp [Term.symbols, parsePrimary, hinner, expect]
  refine parseExpr_le ?_ (parseExpr_primary hprimary (parseRest_le (by omega) hmore))
  simp only [Term.symbols, List.length_cons, List.length_append, List.length_nil]
  omega

theorem Complete.binary (op : Connective) {left right : Term .one} (ihl : Complete left)
    (ihr : Complete right) : Complete (.binary op left right) := by
  intro zone above rest m r hfits hzone habove hstop hrest hmore
  obtain ⟨hleft, hright, hyields, hlevel⟩ := hfits
  obtain ⟨haboveOp, haboveLeft⟩ := lt_min_iff.mp habove
  obtain ⟨hstopOp, hstopRight⟩ := stops_min.mp hstop
  obtain ⟨hop, hzoneLeft, hzoneRight⟩ := hzone.binary
  have hoperand : parseExpr (m + 3 * right.symbols.length + 1) zone op.level
      (right.symbols ++ rest) = some (right, rest) :=
    ihr.alone hright hzoneRight hlevel hstopRight hstopOp hrest (by omega)
  have hnext : parseRest (m + 3 * right.symbols.length + 2) zone above left
      ((Operator.binary op).symbols ++ (right.symbols ++ rest)) = some r := by
    rw [parseRest_operator hop haboveOp]
    simp only [hoperand, Option.bind_some]
    exact parseRest_le (by omega) hmore
  have hall := ihl.operand (.binary op) hleft hzoneLeft hop haboveLeft hyields hnext
  rw [Term.symbols, List.append_assoc, List.append_assoc]
  refine parseExpr_le ?_ hall
  have hlength := op.symbols_length_pos
  simp only [List.length_append]
  omega

theorem Complete.not {operand : Term .one} (ih : Complete operand) : Complete (.not operand) := by
  intro zone above rest m r hfits hzone _ hstop hrest hmore
  obtain rfl := hzone.eq_full id
  obtain ⟨hstopNot, hstopOperand⟩ := stops_min.mp hstop
  have hoperand : parseExpr (m + 3 * operand.symbols.length + 1) .full 3
      (operand.symbols ++ rest) = some (operand, rest) :=
    ih.alone hfits.1 operand.inZone_full hfits.2 hstopOperand hstopNot hrest (by omega)
  have hprimary : parsePrimary (m + 3 * operand.symbols.length + 2) .full
      ((Term.not operand).symbols ++ rest) = some (.not operand, rest) := by
    simp [Term.symbols, parsePrimary, hoperand]
  refine parseExpr_le ?_ (parseExpr_primary hprimary (parseRest_le (by omega) hmore))
  simp only [Term.symbols, List.length_cons]
  omega

theorem Complete.isNull (negated : Bool) {operand : Term .one} (ih : Complete operand) :
    Complete (.isNull negated operand) := by
  intro zone above rest m r hfits hzone habove _ _ hmore
  obtain rfl := hzone.eq_full id
  obtain ⟨haboveOp, haboveLeft⟩ := lt_min_iff.mp habove
  have hnext : parseRest (m + 1) .full above operand
      ((Operator.isNull negated).symbols ++ rest) = some r := by
    rw [parseRest_operator (Operator.inZone_full _) haboveOp]
    exact hmore
  have hall := ih.operand (.isNull negated) hfits.1 operand.inZone_full
    (Operator.inZone_full _) haboveLeft (.inl hfits.2) hnext
  rw [Term.symbols, List.append_assoc]
  refine parseExpr_le ?_ hall
  have hlength : 1 ≤ (isNullSymbols negated).length := by cases negated <;> decide
  simp only [List.length_append]
  omega

theorem Complete.between {operand lower upper : Term .one} (iho : Complete operand)
    (ihl : Complete lower) (ihu : Complete upper) : Complete (.between operand lower upper) := by
  intro zone above rest m r hfits hzone habove hstop hrest hmore
  obtain rfl := hzone.eq_full id
  obtain ⟨hoperand, hlower, hupper, hright, hbound, hleft⟩ := hfits
  obtain ⟨haboveOp, haboveLeft⟩ := lt_min_iff.mp habove
  obtain ⟨hstopOp, hstopUpper⟩ := stops_min.mp hstop
  have hreadLower : parseExpr (m + 3 * lower.symbols.length + 3 * upper.symbols.length + 1)
      .bound 0 (lower.symbols ++ .key .and :: (upper.symbols ++ rest)) =
        some (lower, .key .and :: (upper.symbols ++ rest)) :=
    ihl.alone hlower (fun _ => hbound) lower.leftLevel_pos (stops_of_none rfl)
      (stops_of_none rfl) (by simp) (by omega)
  have hreadUpper : parseExpr (m + 3 * lower.symbols.length + 3 * upper.symbols.length + 1)
      .full 6 (upper.symbols ++ rest) = some (upper, rest) :=
    ihu.alone hupper upper.inZone_full hleft hstopUpper hstopOp hrest (by omega)
  have hnext : parseRest (m + 3 * lower.symbols.length + 3 * upper.symbols.length + 2)
      .full above operand (Operator.between.symbols ++
        (lower.symbols ++ .key .and :: (upper.symbols ++ rest))) = some r := by
    rw [parseRest_operator (Operator.inZone_full _) haboveOp]
    simp only [hreadLower, Option.bind_some, expect, if_true, hreadUpper]
    exact parseRest_le (by omega) hmore
  have hall := iho.operand .between hoperand operand.inZone_full (Operator.inZone_full _)
    haboveLeft (.inl hright) hnext
  have hsymbols : (Term.between operand lower upper).symbols ++ rest =
      operand.symbols ++ (Operator.between.symbols ++
        (lower.symbols ++ .key .and :: (upper.symbols ++ rest))) := by
    simp [Term.symbols, Operator.symbols]
  rw [hsymbols]
  refine parseExpr_le ?_ hall
  simp only [Term.symbols, List.length_append, List.length_cons]
  omega

theorem Complete.inList {operand : Term .one} {values : Term .list} (iho : Complete operand)
    (ihv : Complete values) : Complete (.inList operand values) := by
  intro zone above rest m r hfits hzone habove _ _ hmore
  obtain rfl := hzone.eq_full id
  obtain ⟨hoperand, hvalues, hright⟩ := hfits
  obtain ⟨haboveOp, haboveLeft⟩ := lt_min_iff.mp habove
  have hread : parseValues (m + 3 * values.symbols.length + 2)
      (values.symbols ++ .closeParen :: rest) = some (values, rest) :=
    parseValues_le (by omega) (ihv rest hvalues)
  have hnext : parseRest (m + 3 * values.symbols.length + 3) .full above operand
      (Operator.isIn.symbols ++ (values.symbols ++ .closeParen :: rest)) = some r := by
    rw [parseRest_operator (Operator.inZone_full _) haboveOp]
    simp only [hread, Option.bind_some]
    exact parseRest_le (by omega) hmore
  have hall := iho.operand .isIn hoperand operand.inZone_full (Operator.inZone_full _)
    haboveLeft (.inl hright) hnext
  have hsymbols : (Term.inList operand values).symbols ++ rest =
      operand.symbols ++ (Operator.isIn.symbols ++ (values.symbols ++ .closeParen :: rest)) := by
    simp [Term.symbols, Operator.symbols]
  rw [hsymbols]
  refine parseExpr_le ?_ hall
  simp only [Term.symbols, List.length_append, List.length_cons, List.length_nil]
  omega

theorem complete_existsQuery (query : List Symbol) : Complete (.existsQuery query) := by
  intro zone above rest m r hfits _ _ _ _ hmore
  have hprimary : parsePrimary (m + 1) zone ((Term.existsQuery query).symbols ++ rest) =
      some (.existsQuery query, rest) := by
    have hgroup := IsBalanced.append hfits rest
    simp [Term.symbols, parsePrimary, hgroup]
  refine parseExpr_le ?_ (parseExpr_primary hprimary (parseRest_le (by omega) hmore))
  simp only [Term.symbols, List.length_cons, List.length_append, List.length_nil]
  omega

theorem Complete.last {value : Term .one} (ih : Complete value) : Complete (.last value) := by
  intro rest hfits
  have hvalue : parseExpr (3 * value.symbols.length + 1) .full 0
      (value.symbols ++ .closeParen :: rest) = some (value, .closeParen :: rest) :=
    ih.alone hfits value.inZone_full value.leftLevel_pos stops_closeParen stops_closeParen
      (by simp) (by omega)
  simp [Term.symbols, parseValues, hvalue]

theorem Complete.cons {value : Term .one} {values : Term .list} (ih : Complete value)
    (ihv : Complete values) : Complete (.cons value values) := by
  intro rest hfits
  have hvalue : parseExpr (3 * (Term.cons value values).symbols.length + 1) .full 0
      (value.symbols ++ .comma :: (values.symbols ++ .closeParen :: rest)) =
        some (value, .comma :: (values.symbols ++ .closeParen :: rest)) := by
    refine ih.alone hfits.1 value.inZone_full value.leftLevel_pos stops_comma stops_comma
      (by simp) ?_
    simp only [Term.symbols, List.length_append, List.length_cons]
    omega
  have hvalues : parseValues (3 * (Term.cons value values).symbols.length + 1)
      (values.symbols ++ .closeParen :: rest) = some (values, rest) := by
    refine parseValues_le ?_ (ihv rest hfits.2)
    simp only [Term.symbols, List.length_append, List.length_cons]
    omega
  have hsymbols : (Term.cons value values).symbols ++ .closeParen :: rest =
      value.symbols ++ .comma :: (values.symbols ++ .closeParen :: rest) := by
    simp [Term.symbols]
  rw [hsymbols, parseValues, hvalue]
  simp only [Option.bind_some, hvalues, Option.map_some]

theorem complete {k : Extent} (t : Term k) : Complete t := by
  induction t with
  | atom a => exact complete_atom a
  | group inner ih => exact ih.group
  | binary op left right ihl ihr => exact ihl.binary op ihr
  | not operand ih => exact ih.not
  | isNull negated operand ih => exact ih.isNull negated
  | between operand lower upper iho ihl ihu => exact iho.between ihl ihu
  | inList operand values iho ihv => exact iho.inList ihv
  | existsQuery query => exact complete_existsQuery query
  | last value ih => exact ih.last
  | cons value values ih ihv => exact ih.cons ihv

/-- A text is read as the term that fits and has this text. -/
theorem parse_eq_some_iff {ts : List Symbol} {t : Term .one} :
    parse ts = some t ↔ t.Fits ∧ t.symbols = ts := by
  constructor
  · intro h
    obtain ⟨⟨t', rest⟩, hexpr, hnil⟩ := Option.bind_eq_some_iff.mp h
    obtain ⟨hread, -⟩ := (soundAt _).expr (by decide) hexpr
    have hsymbols := hread.symbols
    dsimp only at hnil
    split_ifs at hnil with hrest
    cases hnil
    rw [hrest, List.append_nil] at hsymbols
    exact ⟨hread.fits, hsymbols⟩
  · rintro ⟨hfits, rfl⟩
    have hexpr := (complete t).alone hfits t.inZone_full t.leftLevel_pos stops_nil stops_nil
      (by simp) (Nat.lt_succ_self _)
    rw [List.append_nil] at hexpr
    simp [parse, hexpr]

/-! ### Parentheses are determined by the text -/

namespace Term

def isGroup : {k : Extent} → Term k → Bool
  | _, group _ => true
  | _, _ => false

/-- The term inside of the parentheses around it. -/
def core : {k : Extent} → Term k → Term k
  | _, group inner => inner.core
  | _, t => t

/-- The number of parentheses around the term. -/
def groups : {k : Extent} → Term k → ℕ
  | _, group inner => inner.groups + 1
  | _, _ => 0

theorem isGroup_core {k : Extent} (t : Term k) : t.core.isGroup = false := by
  induction t with
  | group inner ih => exact ih
  | _ => rfl

theorem strip_core {k : Extent} (t : Term k) : t.core.strip = t.strip := by
  induction t with
  | group inner ih => exact ih
  | _ => rfl

theorem symbols_core {k : Extent} (t : Term k) : t.symbols =
    List.replicate t.groups .openParen ++
      (t.core.symbols ++ List.replicate t.groups .closeParen) := by
  induction t with
  | group inner ih =>
    rw [symbols, ih, core, groups, List.replicate_succ, List.replicate_succ']
    simp
  | _ => simp [core, groups]

theorem core_eq_self {k : Extent} {t : Term k} (h : t.groups = 0) : t.core = t := by
  cases t with
  | group inner => cases h
  | _ => rfl

theorem eq_of_core {k : Extent} {t u : Term k} (hcore : t.core = u.core)
    (hgroups : t.groups = u.groups) : t = u := by
  induction t with
  | group inner ih =>
    cases u with
    | group inner' => exact congrArg group (ih hcore (Nat.succ.inj hgroups))
    | _ => cases hgroups
  | _ => exact hcore.trans (core_eq_self hgroups.symm)

end Term

/-- A text of the term, with parentheses in front of it that may belong to it, is the text
of no other term that means the same. -/
def Unique : {k : Extent} → Term k → Prop
  | .one, t => ∀ (u : Term .one) (a b : ℕ) (rest rest' : List Symbol), t.Fits →
      t.strip = u.strip →
      List.replicate a .openParen ++ (t.symbols ++ rest) =
        List.replicate b .openParen ++ (u.symbols ++ rest') →
      t.core = u.core ∧ a + t.groups = b + u.groups ∧
        List.replicate t.groups .closeParen ++ rest = List.replicate u.groups .closeParen ++ rest'
  | .list, values => ∀ (values' : Term .list) (rest rest' : List Symbol), values.Fits →
      values.strip = values'.strip →
      values.symbols ++ .closeParen :: rest = values'.symbols ++ .closeParen :: rest' →
      values = values' ∧ rest = rest'

theorem replicate_append_inj {s : Symbol} {a b : ℕ} {ts us : List Symbol} (ht : ts.head? ≠ some s)
    (hu : us.head? ≠ some s) (h : List.replicate a s ++ ts = List.replicate b s ++ us) :
    a = b ∧ ts = us := by
  induction a generalizing b with
  | zero =>
    cases b with
    | zero => exact ⟨rfl, h⟩
    | succ b =>
      rw [List.replicate_zero, List.nil_append] at h
      exact absurd (by rw [h]; rfl) ht
  | succ a ih =>
    cases b with
    | zero =>
      rw [List.replicate_zero, List.nil_append] at h
      exact absurd (by rw [← h]; rfl) hu
    | succ b =>
      obtain ⟨rfl, htail⟩ := ih (List.cons.inj h).2
      exact ⟨rfl, htail⟩

section

variable {t u : Term .one} {a b : ℕ} {rest rest' : List Symbol}

/-- A term with no parentheses in front of it. -/
theorem Unique.alone (h : Unique t) (hfits : t.Fits) (hstrip : t.strip = u.strip)
    (hsymbols : t.symbols ++ rest = u.symbols ++ rest') : t = u ∧ rest = rest' := by
  obtain ⟨hcore, hgroups, hrest⟩ := h u 0 0 rest rest' hfits hstrip hsymbols
  have hgroups' : t.groups = u.groups := by omega
  rw [hgroups'] at hrest
  exact ⟨Term.eq_of_core hcore hgroups', List.append_cancel_left hrest⟩

/-- A term in front of an operator. -/
theorem Unique.operand (h : Unique t) (op : Operator) (hfits : t.Fits) (hstrip : t.strip = u.strip)
    (hsymbols : List.replicate a .openParen ++ (t.symbols ++ (op.symbols ++ rest)) =
      List.replicate b .openParen ++ (u.symbols ++ (op.symbols ++ rest'))) :
    t = u ∧ a = b ∧ rest = rest' := by
  obtain ⟨hcore, hgroups, hrest⟩ := h u a b _ _ hfits hstrip hsymbols
  have hhead : ∀ ts, (op.symbols ++ ts).head? ≠ some .closeParen := fun ts => (op.symbols_head ts).2
  obtain ⟨hgroups', htail⟩ := replicate_append_inj (hhead rest) (hhead rest') hrest
  exact ⟨Term.eq_of_core hcore hgroups', by omega, List.append_cancel_left htail⟩

theorem unique_of_bare (hcore : t.core = t) (hgroups : t.groups = 0)
    (h : ∀ (u : Term .one) (a b : ℕ) (rest rest' : List Symbol), u.isGroup = false → t.Fits →
      t.strip = u.strip →
      List.replicate a .openParen ++ (t.symbols ++ rest) =
        List.replicate b .openParen ++ (u.symbols ++ rest') →
      t = u ∧ a = b ∧ rest = rest') : Unique t := by
  intro u a b rest rest' hfits hstrip hsymbols
  rw [u.symbols_core] at hsymbols
  have hnext := h u.core a (b + u.groups) rest (List.replicate u.groups .closeParen ++ rest')
    u.isGroup_core hfits (hstrip.trans u.strip_core.symm)
    (by rw [hsymbols, ← List.replicate_append_replicate]; simp only [List.append_assoc])
  rw [hcore, hgroups]
  exact hnext

end

theorem startsAtom_ne_openParen {s : Symbol} (h : startsAtom s = true) : s ≠ .openParen := by
  rintro rfl
  cases h

theorem unique_atom (symbols : List Symbol) : Unique (.atom symbols) := by
  refine unique_of_bare rfl rfl fun u a b rest rest' hbare hfits hstrip hsymbols => ?_
  cases u with
  | atom symbols' =>
    cases hstrip
    obtain ⟨s, more, rfl, hs⟩ := IsAtom.head hfits
    have hhead : ∀ ts, (s :: more ++ ts).head? ≠ some .openParen := fun ts heq =>
      startsAtom_ne_openParen hs (Option.some.inj heq)
    obtain ⟨rfl, htail⟩ := replicate_append_inj (hhead rest) (hhead rest') hsymbols
    exact ⟨rfl, rfl, List.append_cancel_left htail⟩
  | group inner => cases hbare
  | _ => cases hstrip

theorem Unique.group {inner : Term .one} (ih : Unique inner) : Unique (.group inner) := by
  intro u a b rest rest' hfits hstrip hsymbols
  have hinner : List.replicate (a + 1) .openParen ++ (inner.symbols ++ .closeParen :: rest) =
      List.replicate b .openParen ++ (u.symbols ++ rest') := by
    rw [← hsymbols, List.replicate_succ']
    simp [Term.symbols]
  obtain ⟨hcore, hgroups, hrest⟩ := ih u (a + 1) b _ _ hfits hstrip hinner
  refine ⟨hcore, ?_, ?_⟩
  · simp only [Term.groups]
    omega
  · rw [← hrest, Term.groups, List.replicate_succ']
    simp

theorem Unique.binary (op : Connective) {left right : Term .one} (ihl : Unique left)
    (ihr : Unique right) : Unique (.binary op left right) := by
  refine unique_of_bare rfl rfl fun u a b rest rest' hbare hfits hstrip hsymbols => ?_
  cases u with
  | binary op' left' right' =>
    obtain ⟨rfl, hleft, hright⟩ : op = op' ∧ left.strip = left'.strip ∧
        right.strip = right'.strip := by simpa [Term.strip] using hstrip
    simp only [Term.symbols, List.append_assoc] at hsymbols
    obtain ⟨rfl, rfl, htail⟩ := ihl.operand (.binary op) hfits.1 hleft hsymbols
    obtain ⟨rfl, rfl⟩ := ihr.alone hfits.2.1 hright htail
    exact ⟨rfl, rfl, rfl⟩
  | group inner => cases hbare
  | _ => cases hstrip

/-- The symbols of a term that begins with a keyword. -/
theorem replicate_key_inj {k : Keyword} {a b : ℕ} {ts us : List Symbol}
    (h : List.replicate a .openParen ++ .key k :: ts =
      List.replicate b .openParen ++ .key k :: us) :
    a = b ∧ ts = us := by
  obtain ⟨rfl, htail⟩ := replicate_append_inj (by simp) (by simp) h
  exact ⟨rfl, (List.cons.inj htail).2⟩

theorem Unique.not {operand : Term .one} (ih : Unique operand) : Unique (.not operand) := by
  refine unique_of_bare rfl rfl fun u a b rest rest' hbare hfits hstrip hsymbols => ?_
  cases u with
  | not operand' =>
    obtain ⟨rfl, htail⟩ := replicate_key_inj hsymbols
    obtain ⟨rfl, rfl⟩ := ih.alone hfits.1 (Term.not.inj hstrip) htail
    exact ⟨rfl, rfl, rfl⟩
  | group inner => cases hbare
  | _ => cases hstrip

theorem Unique.isNull (negated : Bool) {operand : Term .one} (ih : Unique operand) :
    Unique (.isNull negated operand) := by
  refine unique_of_bare rfl rfl fun u a b rest rest' hbare hfits hstrip hsymbols => ?_
  cases u with
  | isNull negated' operand' =>
    obtain ⟨rfl, hoperand⟩ := Term.isNull.inj hstrip
    simp only [Term.symbols, List.append_assoc] at hsymbols
    obtain ⟨rfl, rfl, rfl⟩ := ih.operand (.isNull negated) hfits.1 hoperand hsymbols
    exact ⟨rfl, rfl, rfl⟩
  | group inner => cases hbare
  | _ => cases hstrip

theorem Unique.between {operand lower upper : Term .one} (iho : Unique operand)
    (ihl : Unique lower) (ihu : Unique upper) : Unique (.between operand lower upper) := by
  refine unique_of_bare rfl rfl fun u a b rest rest' hbare hfits hstrip hsymbols => ?_
  cases u with
  | between operand' lower' upper' =>
    obtain ⟨hoperand, hlower, hupper⟩ := Term.between.inj hstrip
    simp only [Term.symbols, List.append_assoc, List.cons_append] at hsymbols
    obtain ⟨rfl, rfl, htail⟩ := iho.operand .between hfits.1 hoperand hsymbols
    obtain ⟨rfl, hand⟩ := ihl.alone hfits.2.1 hlower htail
    obtain ⟨rfl, rfl⟩ := ihu.alone hfits.2.2.1 hupper (List.cons.inj hand).2
    exact ⟨rfl, rfl, rfl⟩
  | group inner => cases hbare
  | _ => cases hstrip

theorem Unique.inList {operand : Term .one} {values : Term .list} (iho : Unique operand)
    (ihv : Unique values) : Unique (.inList operand values) := by
  refine unique_of_bare rfl rfl fun u a b rest rest' hbare hfits hstrip hsymbols => ?_
  cases u with
  | inList operand' values' =>
    obtain ⟨hoperand, hvalues⟩ := Term.inList.inj hstrip
    simp only [Term.symbols, List.append_assoc, List.cons_append, List.nil_append] at hsymbols
    obtain ⟨rfl, rfl, htail⟩ := iho.operand .isIn hfits.1 hoperand hsymbols
    obtain ⟨rfl, rfl⟩ := ihv values' rest rest' hfits.2.1 hvalues htail
    exact ⟨rfl, rfl, rfl⟩
  | group inner => cases hbare
  | _ => cases hstrip

theorem unique_existsQuery (query : List Symbol) : Unique (.existsQuery query) := by
  refine unique_of_bare rfl rfl fun u a b rest rest' hbare hfits hstrip hsymbols => ?_
  cases u with
  | existsQuery query' =>
    cases hstrip
    obtain ⟨rfl, htail⟩ := replicate_key_inj hsymbols
    exact ⟨rfl, rfl, by simpa using htail⟩
  | group inner => cases hbare
  | _ => cases hstrip

theorem Unique.last {value : Term .one} (ih : Unique value) : Unique (.last value) := by
  intro values' rest rest' hfits hstrip hsymbols
  cases values' with
  | last value' =>
    obtain ⟨rfl, hrest⟩ := ih.alone hfits (Term.last.inj hstrip) hsymbols
    exact ⟨rfl, (List.cons.inj hrest).2⟩
  | cons value' values' => cases hstrip

theorem Unique.cons {value : Term .one} {values : Term .list} (ih : Unique value)
    (ihv : Unique values) : Unique (.cons value values) := by
  intro values' rest rest' hfits hstrip hsymbols
  cases values' with
  | last value' => cases hstrip
  | cons value' values' =>
    obtain ⟨hvalue, hvalues⟩ := Term.cons.inj hstrip
    simp only [Term.symbols, List.append_assoc, List.cons_append] at hsymbols
    obtain ⟨rfl, hcomma⟩ := ih.alone hfits.1 hvalue hsymbols
    obtain ⟨rfl, rfl⟩ := ihv values' rest rest' hfits.2 hvalues (List.cons.inj hcomma).2
    exact ⟨rfl, rfl⟩

theorem unique {k : Extent} (t : Term k) : Unique t := by
  induction t with
  | atom symbols => exact unique_atom symbols
  | group inner ih => exact ih.group
  | binary op left right ihl ihr => exact ihl.binary op ihr
  | not operand ih => exact ih.not
  | isNull negated operand ih => exact ih.isNull negated
  | between operand lower upper iho ihl ihu => exact iho.between ihl ihu
  | inList operand values iho ihv => exact iho.inList ihv
  | existsQuery query => exact unique_existsQuery query
  | last value ih => exact ih.last
  | cons value values ih ihv => exact ih.cons ihv

/-- A text means what the term is that it was written for exactly if the term fits. -/
theorem parse_strip_iff (t : Term .one) :
    (parse t.symbols).map Term.strip = some t.strip ↔ t.Fits := by
  constructor
  · intro h
    obtain ⟨u, hparse, hstrip⟩ := Option.map_eq_some_iff.mp h
    obtain ⟨hfits, hsymbols⟩ := parse_eq_some_iff.mp hparse
    have hall : u.symbols ++ [] = t.symbols ++ [] := by rw [hsymbols]
    obtain ⟨rfl, -⟩ := (unique u).alone hfits hstrip hall
    exact hfits
  · intro h
    rw [parse_eq_some_iff.mpr ⟨h, rfl⟩]
    rfl

end Demiplane.Sql

import Mathlib.Data.Multiset.Dedup
import Mathlib.Tactic.Common
import Demiplane.Sql.Nesting

/-!
Queries combined by set operations, and the texts of such queries without parentheses.
INTERSECT binds tighter than the other operators, and operators that bind equally group
to the left. When the regrouped query means the same as the one that was written down is
settled for the number of times that one row occurs.
-/

namespace Demiplane.Sql

inductive SetOp where
  | union
  | unionAll
  | intersect
  | except
  deriving DecidableEq, Repr

namespace SetOp

/-- The rows of the result. Only UNION ALL keeps duplicates. -/
def rows {ρ : Type*} [DecidableEq ρ] : SetOp → Multiset ρ → Multiset ρ → Multiset ρ
  | .union, a, b => (a + b).dedup
  | .unionAll, a, b => a + b
  | .intersect, a, b => (a.filter (· ∈ b)).dedup
  | .except, a, b => (a.filter (· ∉ b)).dedup

/-- The number of times that one row occurs in the result. -/
def count : SetOp → ℕ → ℕ → ℕ
  | .union, a, b => if 0 < a ∨ 0 < b then 1 else 0
  | .unionAll, a, b => a + b
  | .intersect, a, b => if 0 < a ∧ 0 < b then 1 else 0
  | .except, a, b => if 0 < a ∧ b = 0 then 1 else 0

theorem count_rows {ρ : Type*} [DecidableEq ρ] (op : SetOp) (a b : Multiset ρ) (x : ρ) :
    (op.rows a b).count x = op.count (a.count x) (b.count x) := by
  cases op <;>
    simp [rows, count, Multiset.count_dedup, Multiset.count_pos, Multiset.count_eq_zero]

end SetOp

/-! ### Trees and chains -/

inductive SetTree (α : Type*) where
  | leaf (a : α)
  | node (op : SetOp) (left right : SetTree α)
  deriving DecidableEq, Repr

namespace SetTree

variable {α β γ : Type*}

def map (f : α → β) : SetTree α → SetTree β
  | leaf a => leaf (f a)
  | node op left right => node op (left.map f) (right.map f)

def eval (f : SetOp → α → α → α) : SetTree α → α
  | leaf a => a
  | node op left right => f op (left.eval f) (right.eval f)

def ops : SetTree α → List SetOp
  | leaf _ => []
  | node op left right => left.ops ++ op :: right.ops

/-- The leaves from left to right: the first one, and the others with the operators in
front of them. -/
def first : SetTree α → α
  | leaf a => a
  | node _ left _ => left.first

def rest : SetTree α → List (SetOp × α)
  | leaf _ => []
  | node op left right => left.rest ++ (op, right.first) :: right.rest

/-- The operators that are not INTERSECT. -/
def loose (t : SetTree α) : List SetOp := t.ops.filter (· ≠ .intersect)

/-- Both trees have the same operators in the same places. -/
def Like : SetTree α → SetTree β → Prop
  | leaf _, leaf _ => True
  | node op left right, node op' left' right' => op = op' ∧ Like left left' ∧ Like right right'
  | _, _ => False

theorem rest_fst (t : SetTree α) : t.rest.map Prod.fst = t.ops := by
  induction t with
  | leaf a => rfl
  | node op left right ihl ihr => simp [rest, ops, ihl, ihr]

theorem Like.ops {s : SetTree α} {t : SetTree β} (h : Like s t) : s.ops = t.ops := by
  induction s generalizing t with
  | leaf a =>
    cases t with
    | leaf b => rfl
    | node => exact h.elim
  | node op left right ihl ihr =>
    cases t with
    | leaf b => exact h.elim
    | node op' left' right' =>
      obtain ⟨rfl, hleft, hright⟩ := h
      rw [SetTree.ops, SetTree.ops, ihl hleft, ihr hright]

theorem like_map (f : α → β) (t : SetTree α) : Like (t.map f) t := by
  induction t with
  | leaf a => trivial
  | node op left right ihl ihr => exact ⟨rfl, ihl, ihr⟩

theorem first_map (f : α → β) (t : SetTree α) : (t.map f).first = f t.first := by
  induction t with
  | leaf a => rfl
  | node op left right ihl ihr => exact ihl

theorem rest_map (f : α → β) (t : SetTree α) :
    (t.map f).rest = t.rest.map fun x => (x.1, f x.2) := by
  induction t with
  | leaf a => rfl
  | node op left right ihl ihr => simp [SetTree.map, rest, ihl, ihr, first_map]

/-- Any chain with the operators of a tree is the chain of a tree like it. -/
theorem exists_like (t : SetTree α) (b : β) {bs : List (SetOp × β)}
    (h : bs.map Prod.fst = t.ops) : ∃ s : SetTree β, Like s t ∧ s.first = b ∧ s.rest = bs := by
  induction t generalizing b bs with
  | leaf a =>
    obtain rfl := List.map_eq_nil_iff.mp h
    exact ⟨leaf b, trivial, rfl, rfl⟩
  | node op left right ihl ihr =>
    obtain ⟨bs₁, bs₂, rfl, h₁, h₂⟩ := List.map_eq_append_iff.mp h
    obtain ⟨⟨op', b'⟩, bs₃, rfl, rfl, h₃⟩ := List.map_eq_cons_iff.mp h₂
    obtain ⟨l, hl, hlfirst, hlrest⟩ := ihl b h₁
    obtain ⟨r, hr, hrfirst, hrrest⟩ := ihr b' h₃
    exact ⟨node op' l r, ⟨rfl, hl, hr⟩, hlfirst, by rw [rest, hlrest, hrfirst, hrrest]⟩

end SetTree

/-! ### Regrouping -/

/-- A chain read from left to right: `k` is what has been read before the term that is
being read, and `term` the operands of INTERSECT so far. -/
def readChain {β : Type*} (f : SetOp → β → β → β) (k : β → β) (term : β) :
    List (SetOp × β) → β
  | [] => k term
  | (.intersect, b) :: rest => readChain f k (f .intersect term b) rest
  | (op, b) :: rest => readChain f (f op (k term)) b rest

/-- The tree that is read from the text of a tree. -/
def SetTree.reparse {α : Type*} (t : SetTree α) : SetTree α :=
  readChain .node id (.leaf t.first) (t.rest.map fun x => (x.1, .leaf x.2))

theorem readChain_hom {β γ : Type*} {f : SetOp → β → β → β} {g : SetOp → γ → γ → γ} (h : β → γ)
    (hf : ∀ op a b, h (f op a b) = g op (h a) (h b)) {k : β → β} {l : γ → γ}
    (hk : ∀ b, h (k b) = l (h b)) (term : β) (rest : List (SetOp × β)) :
    h (readChain f k term rest) = readChain g l (h term) (rest.map fun x => (x.1, h x.2)) := by
  induction rest generalizing k l term with
  | nil => exact hk term
  | cons x rest ih =>
    obtain ⟨op, b⟩ := x
    cases op with
    | intersect =>
      rw [readChain, ih hk, hf]
      rfl
    | _ => exact ih (fun b' => by rw [hf, hk]) b

theorem SetTree.eval_reparse {β : Type*} (f : SetOp → β → β → β) (t : SetTree β) :
    t.reparse.eval f = readChain f id t.first t.rest := by
  have h := readChain_hom (eval f) (f := .node) (g := f) (k := id) (l := id) (fun _ _ _ => rfl)
    (fun _ => rfl) (.leaf t.first) (t.rest.map fun x => (x.1, .leaf x.2))
  rw [reparse, h]
  simp [eval, Function.comp_def]

theorem SetTree.reparse_map {α β : Type*} (f : α → β) (t : SetTree α) :
    (t.map f).reparse = t.reparse.map f := by
  have h := readChain_hom (SetTree.map f) (f := .node) (g := .node) (k := id) (l := id)
    (fun _ _ _ => rfl) (fun _ => rfl) (.leaf t.first) (t.rest.map fun x => (x.1, .leaf x.2))
  rw [reparse, reparse, h, first_map, rest_map]
  simp [SetTree.map, Function.comp_def]

/-! ### Reading chains of numbers -/

/-- What is read when a row occurs in the leaves as often as the tree says. -/
def SetTree.parsed (t : SetTree ℕ) : ℕ := readChain SetOp.count id t.first t.rest

def SetTree.value (t : SetTree ℕ) : ℕ := t.eval SetOp.count

namespace SetOp

variable {a b : ℕ}

@[simp] theorem pos_union : 0 < union.count a b ↔ 0 < a ∨ 0 < b := by
  simp only [count]
  split_ifs with h <;> simp [h]

@[simp] theorem pos_unionAll : 0 < unionAll.count a b ↔ 0 < a ∨ 0 < b := by
  simp only [count]
  omega

@[simp] theorem pos_intersect : 0 < intersect.count a b ↔ 0 < a ∧ 0 < b := by
  simp only [count]
  split_ifs with h <;> simp [h]

@[simp] theorem pos_except : 0 < except.count a b ↔ 0 < a ∧ b = 0 := by
  simp only [count]
  split_ifs with h <;> simp [h]

theorem pos_count_one {op : SetOp} (hintersect : op ≠ .intersect) (hexcept : op ≠ .except) :
    0 < op.count a 1 := by
  cases op with
  | union => simp
  | unionAll => simp
  | intersect => exact absurd rfl hintersect
  | except => exact absurd rfl hexcept

/-- Only UNION ALL counts beyond one. -/
theorem count_le_one {op : SetOp} (h : op ≠ .unionAll) : op.count a b ≤ 1 := by
  cases op with
  | unionAll => exact absurd rfl h
  | _ =>
    simp only [count]
    split_ifs <;> omega

end SetOp

section

variable {k l : ℕ → ℕ} {n m v : ℕ} {rest more : List (SetOp × ℕ)} {os : List SetOp} {op : SetOp}

theorem readChain_loose (h : op ≠ .intersect) :
    readChain SetOp.count k n ((op, m) :: rest) =
      readChain SetOp.count (op.count (k n)) m rest := by
  cases op with
  | intersect => exact absurd rfl h
  | _ => rfl

theorem readChain_append (h : op ≠ .intersect) :
    readChain SetOp.count k n (rest ++ (op, m) :: more) =
      readChain SetOp.count (op.count (readChain SetOp.count k n rest)) m more := by
  induction rest generalizing k n with
  | nil => exact readChain_loose h
  | cons x rest ih =>
    obtain ⟨op', b⟩ := x
    cases op' with
    | intersect => exact ih
    | _ => exact ih

/-- A chain of INTERSECT alone is one term. -/
theorem readChain_intersect (h : ∀ x ∈ rest, x.1 = .intersect) :
    readChain SetOp.count k n (rest ++ more) =
      readChain SetOp.count k (readChain SetOp.count id n rest) more := by
  induction rest generalizing n with
  | nil => rfl
  | cons x rest ih =>
    obtain ⟨op', b⟩ := x
    obtain rfl : op' = .intersect := h _ List.mem_cons_self
    exact ih fun y hy => h y (List.mem_cons_of_mem _ hy)

/-- Whether a row is in the result depends on whether it is in the leaves. -/
theorem readChain_pos_congr (hk : ∀ x y, (0 < x ↔ 0 < y) → (0 < k x ↔ 0 < l y))
    (h : 0 < n ↔ 0 < m) :
    0 < readChain SetOp.count k n rest ↔ 0 < readChain SetOp.count l m rest := by
  induction rest generalizing k l n m with
  | nil => exact hk n m h
  | cons x rest ih =>
    obtain ⟨op', b⟩ := x
    have hkn := hk n m h
    have hzero : k n = 0 ↔ l m = 0 := by omega
    cases op' with
    | intersect => exact ih hk (by simp [h])
    | union => exact ih (fun x y hxy => by simp [hkn, hxy]) Iff.rfl
    | unionAll => exact ih (fun x y hxy => by simp [hkn, hxy]) Iff.rfl
    | except => exact ih (fun x y hxy => by simp [hkn]; omega) Iff.rfl

/-- Without EXCEPT a row that has been read once stays. -/
theorem readChain_or (hrest : ∀ x ∈ rest, x.1 ≠ .except)
    (hk : ∀ x, 0 < k x ↔ 0 < v ∨ 0 < l x) :
    0 < readChain SetOp.count k n rest ↔ 0 < v ∨ 0 < readChain SetOp.count l n rest := by
  induction rest generalizing k l n with
  | nil => exact hk n
  | cons x rest ih =>
    obtain ⟨op', b⟩ := x
    have hmore : ∀ y ∈ rest, y.1 ≠ .except := fun y hy => hrest y (List.mem_cons_of_mem _ hy)
    cases op' with
    | intersect => exact ih hmore hk
    | union => exact ih hmore fun x => by simp [hk, or_assoc]
    | unionAll => exact ih hmore fun x => by simp [hk, or_assoc]
    | except => exact absurd rfl (hrest _ List.mem_cons_self)

/-- Without a UNION a row comes from the first term. -/
theorem readChain_zero (hrest : ∀ x ∈ rest, x.1 = .intersect ∨ x.1 = .except)
    (h : (∀ x, k x = 0) ∨ n = 0 ∧ k 0 = 0) : readChain SetOp.count k n rest = 0 := by
  induction rest generalizing k n with
  | nil =>
    rcases h with h | ⟨rfl, h⟩
    · exact h n
    · exact h
  | cons x rest ih =>
    obtain ⟨op', b⟩ := x
    have hmore : ∀ y ∈ rest, y.1 = .intersect ∨ y.1 = .except := fun y hy =>
      hrest y (List.mem_cons_of_mem _ hy)
    have hkn : k n = 0 := by
      rcases h with h | ⟨rfl, h⟩
      · exact h n
      · exact h
    cases op' with
    | intersect =>
      refine ih hmore (h.imp id ?_)
      rintro ⟨rfl, hk⟩
      exact ⟨rfl, hk⟩
    | except => exact ih hmore (.inl fun x => by simp [SetOp.count, hkn])
    | _ => simpa using hrest _ List.mem_cons_self

theorem readChain_and (hrest : ∀ x ∈ rest, x.1 = .intersect ∨ x.1 = .except) :
    0 < readChain SetOp.count id (SetOp.intersect.count v n) rest ↔
      0 < v ∧ 0 < readChain SetOp.count id n rest := by
  by_cases hv : 0 < v
  · have hcongr : 0 < readChain SetOp.count id (SetOp.intersect.count v n) rest ↔
        0 < readChain SetOp.count id n rest :=
      readChain_pos_congr (fun _ _ h => h) (by simp [hv])
    simp [hcongr, hv]
  · obtain rfl : v = 0 := by omega
    have hzero : readChain SetOp.count id (SetOp.intersect.count 0 n) rest = 0 :=
      readChain_zero hrest (.inr ⟨rfl, rfl⟩)
    simp [hzero]

/-- With UNION ALL alone the terms add up. -/
theorem readChain_sum (hrest : ∀ x ∈ rest, x.1 ≠ .intersect → x.1 = .unionAll)
    (hk : ∀ x, k x = v + l x) :
    readChain SetOp.count k n rest = v + readChain SetOp.count l n rest := by
  induction rest generalizing k l n with
  | nil => exact hk n
  | cons x rest ih =>
    obtain ⟨op', b⟩ := x
    have hmore : ∀ y ∈ rest, y.1 ≠ .intersect → y.1 = .unionAll := fun y hy =>
      hrest y (List.mem_cons_of_mem _ hy)
    cases op' with
    | intersect => exact ih hmore hk
    | unionAll => exact ih hmore fun x => by simp [SetOp.count, hk, Nat.add_assoc]
    | _ => simpa using hrest _ List.mem_cons_self

end

/-! ### Chains with one term -/

section

variable {k : ℕ → ℕ} {os more : List SetOp} {op : SetOp}

/-- No leaf has the row. -/
def allOff (os : List SetOp) : List (SetOp × ℕ) := os.map fun op => (op, 0)

/-- The leaves of the first term have the row, when the one before has it. -/
def firstOn : List SetOp → List (SetOp × ℕ)
  | [] => []
  | .intersect :: os => (.intersect, 1) :: firstOn os
  | op :: os => (op, 0) :: allOff os

theorem allOff_fst (os : List SetOp) : (allOff os).map Prod.fst = os := by
  simp [allOff, Function.comp_def]

theorem firstOn_fst (os : List SetOp) : (firstOn os).map Prod.fst = os := by
  induction os with
  | nil => rfl
  | cons op os ih =>
    cases op with
    | intersect => exact congrArg _ ih
    | _ => exact congrArg _ (allOff_fst os)

theorem firstOn_append (h : ∃ op ∈ os, op ≠ .intersect) :
    firstOn (os ++ more) = firstOn os ++ allOff more := by
  induction os with
  | nil => simp at h
  | cons op os ih =>
    cases op with
    | intersect => exact congrArg _ (ih (by simpa using h))
    | _ => simp [firstOn, allOff]

/-- `v` is as much as `w`, as far as none, one and some are concerned. -/
structure Settles (w v : ℕ) : Prop where
  zero : w = 0 → v = 0
  pos : 0 < w → 0 < v
  one : w = 1 → v = 1

theorem Settles.pos_iff {w v : ℕ} (h : Settles w v) : 0 < v ↔ 0 < w := by
  constructor
  · intro hv
    by_contra hw
    have := h.zero (by omega)
    omega
  · exact h.pos

theorem Settles.refl (w : ℕ) : Settles w w := ⟨id, id, id⟩

theorem Settles.trans {u v w : ℕ} (h : Settles u v) (h' : Settles v w) : Settles u w :=
  ⟨fun hu => h'.zero (h.zero hu), fun hu => h'.pos (h.pos hu), fun hu => h'.one (h.one hu)⟩

/-- An operand without rows changes nothing behind an operator other than INTERSECT. -/
theorem settles_count (h : op ≠ .intersect) (w : ℕ) : Settles w (op.count w 0) := by
  cases op with
  | intersect => exact absurd rfl h
  | unionAll => exact Settles.refl w
  | _ => constructor <;> intro hw <;> simp [SetOp.count, hw]

theorem settles_allOff (os : List SetOp) (k : ℕ → ℕ) :
    Settles (k 0) (readChain SetOp.count k 0 (allOff os)) := by
  induction os generalizing k with
  | nil => exact Settles.refl _
  | cons op os ih =>
    cases op with
    | intersect => exact ih k
    | _ => exact (settles_count (by decide) _).trans (ih _)

theorem settles_firstOn (os : List SetOp) (k : ℕ → ℕ) :
    Settles (k 1) (readChain SetOp.count k 1 (firstOn os)) := by
  induction os with
  | nil => exact Settles.refl _
  | cons op os ih =>
    cases op with
    | intersect => exact ih
    | _ => exact (settles_count (by decide) _).trans (settles_allOff os _)

/-- The row can be in one term behind the operator alone. -/
theorem exists_settles (hop : op ≠ .intersect) (h : op ∈ os) :
    ∃ rest, rest.map Prod.fst = os ∧
      ∀ k, ∃ w, Settles (op.count w 1) (readChain SetOp.count k 0 rest) := by
  induction os with
  | nil => cases h
  | cons op' os ih =>
    by_cases heq : op = op'
    · subst heq
      refine ⟨(op, 1) :: firstOn os, congrArg _ (firstOn_fst os), fun k => ⟨k 0, ?_⟩⟩
      rw [readChain_loose hop]
      exact settles_firstOn os _
    · obtain ⟨rest, hrest, hsettles⟩ := ih (List.mem_of_ne_of_mem heq h)
      refine ⟨(op', 0) :: rest, congrArg _ hrest, fun k => ?_⟩
      cases op' with
      | intersect => exact hsettles k
      | _ => exact hsettles _

/-- The last operator other than INTERSECT is UNION ALL; `b` says what it is when there is
none. -/
def endsInSum (b : Bool) : List SetOp → Bool
  | [] => b
  | .intersect :: os => endsInSum b os
  | .unionAll :: os => endsInSum true os
  | .union :: os => endsInSum false os
  | .except :: os => endsInSum false os

theorem endsInSum_eq (b : Bool) (os : List SetOp) :
    endsInSum b os =
      ((os.filter (· ≠ .intersect)).getLast?.elim b fun op => decide (op = .unionAll)) := by
  induction os generalizing b with
  | nil => rfl
  | cons op os ih =>
    cases op with
    | intersect => exact ih b
    | _ =>
      rw [endsInSum, ih, List.filter_cons_of_pos (by decide), List.getLast?_cons]
      cases (os.filter (· ≠ .intersect)).getLast? <;> rfl

/-- What it is when there is none matters only for INTERSECT alone. -/
theorem readChain_firstOn (h : endsInSum true os = true) (hnone : endsInSum false os = false) :
    readChain SetOp.count k 1 (firstOn os) = k 1 := by
  induction os with
  | nil => rfl
  | cons op os ih =>
    cases op with
    | intersect => exact ih h hnone
    | _ => exact absurd (h.symm.trans hnone) (by decide)

theorem readChain_le_one {b : Bool} {n : ℕ} {rest : List (SetOp × ℕ)}
    (hk : b = false → k n ≤ 1 ∧ ∀ x ≤ 1, k x ≤ 1)
    (h : endsInSum b (rest.map Prod.fst) = false) : readChain SetOp.count k n rest ≤ 1 := by
  induction rest generalizing k n b with
  | nil => exact (hk h).1
  | cons x rest ih =>
    obtain ⟨op', m⟩ := x
    cases op' with
    | intersect =>
      refine ih (fun hb => ?_) h
      exact ⟨(hk hb).2 _ (SetOp.count_le_one (by decide)), (hk hb).2⟩
    | unionAll => exact ih (b := true) (fun hb => by cases hb) h
    | _ =>
      exact ih (b := false) (fun _ => ⟨SetOp.count_le_one (by decide),
        fun _ _ => SetOp.count_le_one (by decide)⟩) h

/-- The row can be in the last term and counted a second time. -/
theorem exists_two_le (h : endsInSum false os = true) :
    ∃ rest, rest.map Prod.fst = os ∧ ∀ k, 0 < k 0 → 2 ≤ readChain SetOp.count k 0 rest := by
  induction os with
  | nil => cases h
  | cons op os ih =>
    by_cases hos : endsInSum false os = true
    · obtain ⟨rest, hrest, htwo⟩ := ih hos
      refine ⟨(op, 0) :: rest, congrArg _ hrest, fun k hk => ?_⟩
      cases op with
      | intersect => exact htwo k hk
      | _ => exact htwo _ ((settles_count (by decide) _).pos hk)
    · cases op with
      | intersect => exact absurd h hos
      | unionAll =>
        refine ⟨(.unionAll, 1) :: firstOn os, congrArg _ (firstOn_fst os), fun k hk => ?_⟩
        rw [readChain_loose (by decide), readChain_firstOn h (by simpa using hos)]
        simp only [SetOp.count]
        omega
      | union => exact absurd h hos
      | except => exact absurd h hos

end

/-! ### When the regrouped tree means the same -/

namespace SetTree

variable {α : Type*}

/-- Where regrouping keeps which rows there are. -/
def KeepsRows : SetTree α → Prop
  | leaf _ => True
  | node .union left right => KeepsRows left ∧ KeepsRows right ∧ .except ∉ right.ops
  | node .unionAll left right => KeepsRows left ∧ KeepsRows right ∧ .except ∉ right.ops
  | node .except left right => KeepsRows left ∧ right.loose = []
  | node .intersect left right =>
      left.loose = [] ∧ KeepsRows right ∧ ∀ op ∈ right.loose, op = .except

/-- Where regrouping keeps the number of times that each row occurs as well. -/
def Regroups : SetTree α → Prop
  | leaf _ => True
  | node .unionAll left right =>
      Regroups left ∧ Regroups right ∧ ∀ op ∈ right.loose, op = .unionAll
  | node .union left right =>
      KeepsRows (node .union left right) ∧ right.loose.getLast? ≠ some .unionAll
  | node .except left right => KeepsRows (node .except left right)
  | node .intersect left right => KeepsRows (node .intersect left right)

theorem mem_loose {t : SetTree α} {op : SetOp} : op ∈ t.loose ↔ op ∈ t.ops ∧ op ≠ .intersect := by
  simp [loose]

theorem loose_eq_nil {t : SetTree α} : t.loose = [] ↔ ∀ op ∈ t.ops, op = .intersect := by
  simp [loose]

theorem parsed_loose {op : SetOp} (h : op ≠ .intersect) (left right : SetTree ℕ) :
    (node op left right).parsed =
      readChain SetOp.count (op.count left.parsed) right.first right.rest :=
  readChain_append h

theorem parsed_intersect {left : SetTree ℕ} (h : left.loose = []) (right : SetTree ℕ) :
    (node .intersect left right).parsed =
      readChain SetOp.count id (SetOp.intersect.count left.parsed right.first) right.rest := by
  refine readChain_intersect fun x hx => loose_eq_nil.mp h _ ?_
  rw [← rest_fst]
  exact List.mem_map_of_mem hx

theorem intersect_or_except {t : SetTree α} (h : ∀ op ∈ t.loose, op = .except) {op : SetOp}
    (hop : op ∈ t.ops) : op = .intersect ∨ op = .except := by
  by_cases hne : op = .intersect
  · exact .inl hne
  · exact .inr (h op (mem_loose.mpr ⟨hop, hne⟩))

/-! #### Trees like a given one -/

/-- No leaf has the row. -/
theorem exists_off (t : SetTree α) : ∃ s : SetTree ℕ, Like s t ∧ s.first = 0 ∧
    s.rest = allOff t.ops ∧ s.parsed = 0 ∧ s.value = 0 := by
  have hvalue : (t.map fun _ => 0).value = 0 := by
    induction t with
    | leaf a => rfl
    | node op left right ihl ihr =>
      change op.count (left.map fun _ => 0).value (right.map fun _ => 0).value = 0
      rw [ihl, ihr]
      cases op <;> rfl
  have hrest : (t.map fun _ => 0).rest = allOff t.ops := by
    rw [rest_map, ← rest_fst, allOff, List.map_map]
    rfl
  have hparsed : (t.map fun _ => 0).parsed = 0 := by
    rw [parsed, hrest, first_map]
    exact (settles_allOff t.ops id).zero rfl
  exact ⟨_, like_map _ t, first_map _ t, hrest, hparsed, hvalue⟩

/-- The leaves of the first term have the row. -/
theorem exists_on (t : SetTree α) : ∃ s : SetTree ℕ, Like s t ∧ s.first = 1 ∧
    s.rest = firstOn t.ops ∧ s.parsed = 1 := by
  obtain ⟨s, hlike, hfirst, hrest⟩ := exists_like t 1 (firstOn_fst t.ops)
  refine ⟨s, hlike, hfirst, hrest, ?_⟩
  rw [parsed, hfirst, hrest]
  exact (settles_firstOn t.ops id).one rfl

/-- The regrouped tree has the same rows. -/
def Agrees (t : SetTree α) : Prop := ∀ s : SetTree ℕ, Like s t → (0 < s.parsed ↔ 0 < s.value)

section

variable {left right : SetTree α}

/-- A tree like a node is a node. -/
theorem agrees_node {op : SetOp} : Agrees (node op left right) ↔
    ∀ l r : SetTree ℕ, Like l left → Like r right →
      (0 < (node op l r).parsed ↔ 0 < op.count l.value r.value) := by
  constructor
  · intro h l r hl hr
    exact h (node op l r) ⟨rfl, hl, hr⟩
  · intro h s hs
    cases s with
    | leaf n => exact hs.elim
    | node op' l r =>
      obtain ⟨rfl, hl, hr⟩ := hs
      exact h l r hl hr

theorem Like.rest_mem {s : SetTree ℕ} {t : SetTree α} (h : Like s t) {x : SetOp × ℕ}
    (hx : x ∈ s.rest) : x.1 ∈ t.ops := by
  rw [← h.ops, ← rest_fst]
  exact List.mem_map_of_mem hx

theorem agrees_or {op : SetOp} (hop : op ≠ .intersect)
    (hpos : ∀ a b, 0 < op.count a b ↔ 0 < a ∨ 0 < b) :
    Agrees (node op left right) ↔ Agrees left ∧ Agrees right ∧ .except ∉ right.ops := by
  rw [agrees_node]
  constructor
  · intro h
    have hleft : Agrees left := by
      intro l hl
      obtain ⟨r, hr, hfirst, hrest, -, hvalue⟩ := exists_off right
      have hnode := h l r hl hr
      rw [parsed_loose hop, hfirst, hrest, hvalue] at hnode
      rw [((settles_count hop _).trans (settles_allOff right.ops _)).pos_iff] at hnode
      simpa [hpos] using hnode
    have hright : Agrees right := by
      intro r hr
      obtain ⟨l, hl, -, -, hparsed, hvalue⟩ := exists_off left
      have hnode := h l r hl hr
      rw [parsed_loose hop, hparsed, hvalue] at hnode
      rw [readChain_pos_congr (l := id) (m := r.first) (fun x y hxy => by simp [hpos, hxy])
        Iff.rfl] at hnode
      simpa [hpos, parsed] using hnode
    refine ⟨hleft, hright, fun hmem => ?_⟩
    -- the row is in the left operand and behind an EXCEPT of the right one
    obtain ⟨rest, hfst, hsettles⟩ := exists_settles (by decide) hmem
    obtain ⟨r, hr, hfirst, hrest⟩ := exists_like right 0 hfst
    obtain ⟨l, hl, -, -, hparsed⟩ := exists_on left
    have hvalue : 0 < l.value := (hleft l hl).mp (by omega)
    have hnode := h l r hl hr
    obtain ⟨w, hw⟩ := hsettles (op.count l.parsed)
    rw [parsed_loose hop, hfirst, hrest, hw.zero (by simp [SetOp.count])] at hnode
    simp [hpos, hvalue] at hnode
  · rintro ⟨hleft, hright, hexcept⟩ l r hl hr
    rw [parsed_loose hop, readChain_or (l := id)
      (fun x hx heq => hexcept (heq ▸ hr.rest_mem hx)) (hpos l.parsed), hpos, ← hleft l hl,
      ← hright r hr]
    rfl

theorem agrees_of_loose_eq_nil {t : SetTree α} (h : t.loose = []) : Agrees t := by
  induction t with
  | leaf a =>
    intro s hs
    cases s with
    | leaf n => exact Iff.rfl
    | node => exact hs.elim
  | node op left right ihl ihr =>
    have hops : ∀ op' ∈ left.ops ++ op :: right.ops, op' = .intersect := loose_eq_nil.mp h
    have hl : left.loose = [] := loose_eq_nil.mpr fun o ho => hops o (by simp [ho])
    have hr : right.loose = [] := loose_eq_nil.mpr fun o ho => hops o (by simp [ho])
    obtain rfl : op = .intersect := hops op (by simp)
    rw [agrees_node]
    intro l r hlike hrlike
    rw [parsed_intersect (by rw [loose, hlike.ops]; exact hl), readChain_and fun x hx =>
      .inl (loose_eq_nil.mp hr _ (hrlike.rest_mem hx)), SetOp.pos_intersect, ← ihl hl l hlike,
      ← ihr hr r hrlike]
    rfl

/-- Without a UNION a row comes from the first leaf. -/
theorem value_eq_zero {s : SetTree ℕ} (h : ∀ op ∈ s.ops, op = .intersect ∨ op = .except)
    (hfirst : s.first = 0) : s.value = 0 := by
  induction s with
  | leaf n => exact hfirst
  | node op left right ihl ihr =>
    have hleft : left.value = 0 := ihl (fun o ho => h o (by simp [ops, ho])) hfirst
    change op.count left.value right.value = 0
    rw [hleft]
    rcases h op (by simp [ops]) with rfl | rfl <;> rfl

theorem agrees_except : Agrees (node .except left right) ↔ Agrees left ∧ right.loose = [] := by
  rw [agrees_node]
  constructor
  · intro h
    have hleft : Agrees left := by
      intro l hl
      obtain ⟨r, hr, hfirst, hrest, -, hvalue⟩ := exists_off right
      have hnode := h l r hl hr
      rw [parsed_loose (by decide), hfirst, hrest, hvalue] at hnode
      rw [((settles_count (by decide) _).trans (settles_allOff right.ops _)).pos_iff] at hnode
      simpa using hnode
    refine ⟨hleft, ?_⟩
    by_contra hloose
    by_cases hunion : ∃ op ∈ right.loose, op ≠ .except
    · -- the row is behind a UNION of the right operand alone
      obtain ⟨op, hmem, hexcept⟩ := hunion
      obtain ⟨hop, hne⟩ := mem_loose.mp hmem
      obtain ⟨rest, hfst, hsettles⟩ := exists_settles hne hop
      obtain ⟨r, hr, hfirst, hrest⟩ := exists_like right 0 hfst
      obtain ⟨l, hl, -, -, -, hvalue⟩ := exists_off left
      have hnode := h l r hl hr
      obtain ⟨w, hw⟩ := hsettles (SetOp.except.count l.parsed)
      rw [parsed_loose (by decide), hfirst, hrest, hvalue] at hnode
      simp [hw.pos (SetOp.pos_count_one hne hexcept)] at hnode
    · -- the row is in the left operand and behind an EXCEPT of the right one
      push Not at hunion
      obtain ⟨op, hmem⟩ := List.exists_mem_of_ne_nil _ hloose
      obtain rfl := hunion op hmem
      obtain ⟨rest, hfst, hsettles⟩ := exists_settles (by decide) (mem_loose.mp hmem).1
      obtain ⟨r, hr, hfirst, hrest⟩ := exists_like right 0 hfst
      obtain ⟨l, hl, -, -, hparsed⟩ := exists_on left
      have hvalue : 0 < l.value := (hleft l hl).mp (by omega)
      have hzero : r.value = 0 := by
        refine value_eq_zero (fun op hop => intersect_or_except hunion ?_) hfirst
        rwa [hr.ops] at hop
      have hnode := h l r hl hr
      obtain ⟨w, hw⟩ := hsettles (SetOp.except.count l.parsed)
      rw [parsed_loose (by decide), hfirst, hrest, hw.zero (by simp [SetOp.count]), hzero] at hnode
      simp [hvalue] at hnode
  · rintro ⟨hleft, hright⟩ l r hl hr
    have hone : readChain SetOp.count (SetOp.except.count l.parsed) r.first r.rest =
        SetOp.except.count l.parsed r.parsed := by
      rw [← List.append_nil r.rest, readChain_intersect fun x hx =>
        loose_eq_nil.mp hright _ (hr.rest_mem hx)]
      rfl
    rw [parsed_loose (by decide), hone, SetOp.pos_except, SetOp.pos_except, ← hleft l hl]
    have hagrees := agrees_of_loose_eq_nil hright r hr
    have hzero : r.parsed = 0 ↔ r.value = 0 := by omega
    rw [hzero]

theorem agrees_intersect : Agrees (node .intersect left right) ↔
    left.loose = [] ∧ Agrees right ∧ ∀ op ∈ right.loose, op = .except := by
  rw [agrees_node]
  constructor
  · intro h
    have hleft : left.loose = [] := by
      by_contra hloose
      -- the row is in the first term of the left operand, which INTERSECT does not reach
      obtain ⟨op, hmem⟩ := List.exists_mem_of_ne_nil _ hloose
      obtain ⟨l, hl, hlfirst, hlrest, -⟩ := exists_on left
      obtain ⟨r, hr, hfirst, hrest, -, hvalue⟩ := exists_off right
      have hchain : (node .intersect l r).rest = firstOn (left.ops ++ .intersect :: right.ops) := by
        rw [rest, hlrest, hfirst, hrest, firstOn_append ⟨op, mem_loose.mp hmem⟩]
        rfl
      have hparsed : (node .intersect l r).parsed = 1 := by
        rw [parsed, hchain, first, hlfirst]
        exact (settles_firstOn _ id).one rfl
      have hnode := h l r hl hr
      rw [hparsed, hvalue] at hnode
      simp at hnode
    have hright : ∀ op ∈ right.loose, op = .except := by
      intro op hmem
      by_contra hexcept
      -- the row is behind a UNION of the right operand alone
      obtain ⟨hop, hne⟩ := mem_loose.mp hmem
      obtain ⟨rest, hfst, hsettles⟩ := exists_settles hne hop
      obtain ⟨r, hr, hfirst, hrest⟩ := exists_like right 0 hfst
      obtain ⟨l, hl, -, -, hparsed, hvalue⟩ := exists_off left
      have hnode := h l r hl hr
      obtain ⟨w, hw⟩ := hsettles id
      rw [parsed_intersect (by rw [loose, hl.ops]; exact hleft), hparsed, hfirst, hrest,
        hvalue] at hnode
      simp [hw.pos (SetOp.pos_count_one hne hexcept), SetOp.count] at hnode
    refine ⟨hleft, ?_, hright⟩
    intro r hr
    obtain ⟨l, hl, -, -, hparsed⟩ := exists_on left
    have hvalue : 0 < l.value := (agrees_of_loose_eq_nil hleft l hl).mp (by omega)
    have hnode := h l r hl hr
    rw [parsed_intersect (by rw [loose, hl.ops]; exact hleft),
      readChain_and fun x hx => intersect_or_except hright (hr.rest_mem hx)] at hnode
    change 0 < readChain SetOp.count id r.first r.rest ↔ 0 < r.value
    simpa [hparsed, hvalue] using hnode
  · rintro ⟨hleft, hright, hexcept⟩ l r hl hr
    rw [parsed_intersect (by rw [loose, hl.ops]; exact hleft),
      readChain_and fun x hx => intersect_or_except hexcept (hr.rest_mem hx), SetOp.pos_intersect,
      ← agrees_of_loose_eq_nil hleft l hl, ← hright r hr]
    rfl

theorem agrees_iff (t : SetTree α) : Agrees t ↔ t.KeepsRows := by
  induction t with
  | leaf a => exact iff_of_true (agrees_of_loose_eq_nil rfl) trivial
  | node op left right ihl ihr =>
    cases op with
    | union => rw [agrees_or (by decide) fun _ _ => SetOp.pos_union, ihl, ihr, KeepsRows]
    | unionAll => rw [agrees_or (by decide) fun _ _ => SetOp.pos_unionAll, ihl, ihr, KeepsRows]
    | except => rw [agrees_except, ihl, KeepsRows]
    | intersect => rw [agrees_intersect, ihr, KeepsRows]

/-- The regrouped tree has each row the same number of times. -/
def Same (t : SetTree α) : Prop := ∀ s : SetTree ℕ, Like s t → s.parsed = s.value

theorem same_iff_agrees {op : SetOp} (hop : op ≠ .unionAll) :
    Same (node op left right) ↔ Agrees (node op left right) ∧
      ∀ l r : SetTree ℕ, Like l left → Like r right → (node op l r).parsed ≤ 1 := by
  constructor
  · intro h
    refine ⟨fun s hs => by rw [h s hs], fun l r hl hr => ?_⟩
    rw [h (node op l r) ⟨rfl, hl, hr⟩]
    exact SetOp.count_le_one hop
  · rintro ⟨hagrees, hone⟩ s hs
    cases s with
    | leaf n => exact hs.elim
    | node op' l r =>
      obtain ⟨rfl, hl, hr⟩ := hs
      have hpos := hagrees (node op' l r) ⟨rfl, hl, hr⟩
      have hparsed := hone l r hl hr
      have hvalue : (node op' l r).value ≤ 1 := SetOp.count_le_one hop
      omega

theorem same_union : Same (node .union left right) ↔
    Agrees (node .union left right) ∧ right.loose.getLast? ≠ some .unionAll := by
  rw [same_iff_agrees (by decide)]
  refine and_congr_right fun _ => ?_
  have hends : right.loose.getLast? ≠ some .unionAll ↔ endsInSum false right.ops = false := by
    rw [endsInSum_eq, loose]
    cases (right.ops.filter (· ≠ .intersect)).getLast? <;> simp
  rw [hends]
  constructor
  · intro hone
    by_contra hsum
    obtain ⟨rest, hfst, htwo⟩ := exists_two_le (by simpa using hsum)
    obtain ⟨r, hr, hfirst, hrest⟩ := exists_like right 0 hfst
    obtain ⟨l, hl, -, -, hparsed⟩ := exists_on left
    have hle := hone l r hl hr
    have hge := htwo (SetOp.union.count l.parsed) (by simp [hparsed])
    rw [parsed_loose (by decide), hfirst, hrest] at hle
    omega
  · intro hsum l r _ hr
    rw [parsed_loose (by decide)]
    refine readChain_le_one (b := false) (fun _ => ⟨SetOp.count_le_one (by decide), fun _ _ =>
      SetOp.count_le_one (by decide)⟩) ?_
    rwa [rest_fst, hr.ops]

theorem endsInSum_of_loose {t : SetTree α} (h : ∀ op ∈ t.loose, op = .except) :
    endsInSum false t.ops = false := by
  rw [endsInSum_eq]
  cases hlast : t.loose.getLast? with
  | none =>
    rw [loose] at hlast
    rw [hlast]
    rfl
  | some op =>
    have hop := h op (List.mem_of_getLast? hlast)
    rw [loose] at hlast
    rw [hlast, hop]
    rfl

theorem same_except : Same (node .except left right) ↔ Agrees (node .except left right) := by
  rw [same_iff_agrees (by decide), and_iff_left_iff_imp, agrees_except]
  rintro ⟨-, hright⟩ l r - hr
  rw [parsed_loose (by decide)]
  refine readChain_le_one (b := false) (fun _ => ⟨SetOp.count_le_one (by decide), fun _ _ =>
    SetOp.count_le_one (by decide)⟩) ?_
  rw [rest_fst, hr.ops]
  exact endsInSum_of_loose (by simp [hright])

theorem same_intersect :
    Same (node .intersect left right) ↔ Agrees (node .intersect left right) := by
  rw [same_iff_agrees (by decide), and_iff_left_iff_imp, agrees_intersect]
  rintro ⟨hleft, -, hright⟩ l r hl hr
  rw [parsed_intersect (by rw [loose, hl.ops]; exact hleft)]
  refine readChain_le_one (b := false) (fun _ => ⟨SetOp.count_le_one (by decide), fun _ h => h⟩) ?_
  rw [rest_fst, hr.ops]
  exact endsInSum_of_loose hright

theorem parsed_sum {l r : SetTree ℕ} (h : ∀ op ∈ r.loose, op = .unionAll) :
    (node .unionAll l r).parsed = l.parsed + r.parsed := by
  rw [parsed_loose (by decide)]
  refine readChain_sum (l := id) (fun x hx hne => ?_) fun _ => rfl
  exact h _ (mem_loose.mpr ⟨rest_fst r ▸ List.mem_map_of_mem hx, hne⟩)

theorem same_unionAll : Same (node .unionAll left right) ↔
    Same left ∧ Same right ∧ ∀ op ∈ right.loose, op = .unionAll := by
  constructor
  · intro h
    have hagrees : Agrees (node .unionAll left right) := fun s hs => by rw [h s hs]
    obtain ⟨hleft, hright, hexcept⟩ := (agrees_or (by decide) fun _ _ =>
      SetOp.pos_unionAll).mp hagrees
    have hsum : ∀ op ∈ right.loose, op = .unionAll := by
      intro op hmem
      by_contra hne
      obtain ⟨hop, hintersect⟩ := mem_loose.mp hmem
      obtain rfl : op = .union := by
        cases op with
        | union => rfl
        | unionAll => exact absurd rfl hne
        | intersect => exact absurd rfl hintersect
        | except => exact absurd hop hexcept
      -- the row is in the left operand and behind a UNION of the right one, which merges them
      obtain ⟨rest, hfst, hsettles⟩ := exists_settles hintersect hop
      obtain ⟨r, hr, hfirst, hrest⟩ := exists_like right 0 hfst
      obtain ⟨l, hl, -, -, hparsed⟩ := exists_on left
      have hlvalue : 0 < l.value := (hleft l hl).mp (by omega)
      have hrvalue : 0 < r.value := by
        obtain ⟨w, hw⟩ := hsettles id
        refine (hright r hr).mp ?_
        rw [parsed, hfirst, hrest]
        exact hw.pos (by simp)
      have hnode : (node .unionAll l r).parsed = l.value + r.value :=
        h (node .unionAll l r) ⟨rfl, hl, hr⟩
      obtain ⟨w, hw⟩ := hsettles (SetOp.unionAll.count l.parsed)
      rw [parsed_loose (by decide), hfirst, hrest, hw.one (by simp [SetOp.count])] at hnode
      omega
    have hadd : ∀ l r : SetTree ℕ, Like l left → Like r right →
        l.parsed + r.parsed = l.value + r.value := by
      intro l r hl hr
      rw [← parsed_sum (by rw [loose, hr.ops]; exact hsum)]
      exact h (node .unionAll l r) ⟨rfl, hl, hr⟩
    refine ⟨fun l hl => ?_, fun r hr => ?_, hsum⟩
    · obtain ⟨r, hr, -, -, hparsed, hvalue⟩ := exists_off right
      simpa [hparsed, hvalue] using hadd l r hl hr
    · obtain ⟨l, hl, -, -, hparsed, hvalue⟩ := exists_off left
      simpa [hparsed, hvalue] using hadd l r hl hr
  · rintro ⟨hleft, hright, hsum⟩ s hs
    cases s with
    | leaf n => exact hs.elim
    | node op' l r =>
      obtain ⟨rfl, hl, hr⟩ := hs
      rw [parsed_sum (by rw [loose, hr.ops]; exact hsum), hleft l hl, hright r hr]
      rfl

theorem same_iff (t : SetTree α) : Same t ↔ t.Regroups := by
  induction t with
  | leaf a =>
    refine iff_of_true (fun s hs => ?_) trivial
    cases s with
    | leaf n => rfl
    | node => exact hs.elim
  | node op left right ihl ihr =>
    cases op with
    | union => rw [same_union, agrees_iff, Regroups]
    | unionAll => rw [same_unionAll, ihl, ihr, Regroups]
    | except => rw [same_except, agrees_iff, Regroups]
    | intersect => rw [same_intersect, agrees_iff, Regroups]

end

/-! ### Rows -/

section

variable {ρ : Type*} [DecidableEq ρ]

/-- The rows of a query whose leaves have the rows that the tree says. -/
def rows (t : SetTree (Multiset ρ)) : Multiset ρ := t.eval SetOp.rows

theorem eval_count (t : SetTree (Multiset ρ)) (x : ρ) :
    t.rows.count x = (t.map (Multiset.count x)).value := by
  induction t with
  | leaf a => rfl
  | node op left right ihl ihr =>
    change (op.rows left.rows right.rows).count x = _
    rw [SetOp.count_rows, ihl, ihr]
    rfl

theorem like_trans {β γ : Type*} {s : SetTree α} {t : SetTree β} {u : SetTree γ}
    (h : Like s t) (h' : Like t u) : Like s u := by
  induction s generalizing t u with
  | leaf a =>
    cases t <;> cases u <;> trivial
  | node op left right ihl ihr =>
    cases t with
    | leaf b => exact h.elim
    | node op' left' right' =>
      cases u with
      | leaf c => exact h'.elim
      | node op'' left'' right'' =>
        exact ⟨h.1.trans h'.1, ihl h.2.1 h'.2.1, ihr h.2.2 h'.2.2⟩

/-- Regrouping keeps the rows for all rows of the leaves exactly on the trees above. -/
theorem rows_reparse_iff [Inhabited ρ] (t : SetTree α) :
    (∀ s : SetTree (Multiset ρ), Like s t → s.reparse.rows = s.rows) ↔ t.Regroups := by
  rw [← same_iff]
  constructor
  · intro h s hs
    -- one row, as often as the numbers say
    have hrows := h (s.map fun n => Multiset.replicate n default) (like_trans (like_map _ s) hs)
    have hback : (s.map fun n => Multiset.replicate n (default : ρ)).map
        (Multiset.count default) = s := by
      clear hs hrows
      induction s with
      | leaf n => simp [SetTree.map]
      | node op left right ihl ihr => simp [SetTree.map, ihl, ihr]
    have hcount := congrArg (Multiset.count default) hrows
    rw [eval_count, eval_count, ← reparse_map, hback] at hcount
    exact (eval_reparse _ _).symm.trans hcount
  · intro h s hs
    ext x
    rw [eval_count, eval_count, ← reparse_map]
    exact (eval_reparse _ _).trans (h (s.map (Multiset.count x)) (like_trans (like_map _ s) hs))

end

/-! ### Reading texts -/

/-- The leaves, numbered from left to right. -/
def number (n : ℕ) : SetTree α → SetTree ℕ
  | leaf _ => leaf n
  | node op left right => node op (left.number n) (right.number (n + left.ops.length + 1))

theorem number_first (n : ℕ) (t : SetTree α) : (t.number n).first = n := by
  induction t generalizing n with
  | leaf a => rfl
  | node op left right ihl ihr => exact ihl n

theorem number_rest (n : ℕ) (t : SetTree α) : (t.number n).rest = t.ops.zipIdx (n + 1) := by
  induction t generalizing n with
  | leaf a => rfl
  | node op left right ihl ihr =>
    simp only [number, rest, ops, ihl, ihr, number_first, List.zipIdx_append, List.zipIdx_cons]
    rw [show n + left.ops.length + 1 = n + 1 + left.ops.length by omega]

theorem like_number (n : ℕ) (t : SetTree α) : Like (t.number n) t := by
  induction t generalizing n with
  | leaf a => trivial
  | node op left right ihl ihr => exact ⟨rfl, ihl n, ihr _⟩

theorem Like.number {β : Type*} {s : SetTree α} {t : SetTree β} (h : Like s t) (n : ℕ) :
    s.number n = t.number n := by
  induction s generalizing t n with
  | leaf a =>
    cases t with
    | leaf b => rfl
    | node => exact h.elim
  | node op left right ihl ihr =>
    cases t with
    | leaf b => exact h.elim
    | node op' left' right' =>
      obtain ⟨rfl, hleft, hright⟩ := h
      rw [SetTree.number, SetTree.number, ihl hleft, ihr hright, hleft.ops]

/-- Every tree assigns something to the numbers of its leaves. -/
theorem exists_number_map (s : SetTree α) (n : ℕ) : ∃ f : ℕ → α, ∀ g : ℕ → α,
    (∀ i, n ≤ i → i ≤ n + s.ops.length → g i = f i) → (s.number n).map g = s := by
  induction s generalizing n with
  | leaf a => exact ⟨fun _ => a, fun g hg => congrArg leaf (hg n le_rfl le_self_add)⟩
  | node op left right ihl ihr =>
    obtain ⟨fl, hl⟩ := ihl n
    obtain ⟨fr, hr⟩ := ihr (n + left.ops.length + 1)
    refine ⟨fun i => if i ≤ n + left.ops.length then fl i else fr i, fun g hg => ?_⟩
    simp only [ops, List.length_append, List.length_cons] at hg
    have hleft : (left.number n).map g = left := hl g fun i hn hi => by
      rw [hg i hn (by omega), if_pos hi]
    have hright : (right.number (n + left.ops.length + 1)).map g = right := hr g fun i hn hi => by
      rw [hg i (by omega) (by omega), if_neg (by omega)]
    rw [number, SetTree.map, hleft, hright]

end SetTree

open Text (ascii)

def setWord : Token → Option SetOp
  | .word text =>
      if text = ascii "UNION" then some .union
      else if text = ascii "INTERSECT" then some .intersect
      else if text = ascii "EXCEPT" then some .except
      else none
  | _ => none

def isSetWord (t : Token) : Bool := (setWord t).isSome

/-- The tokens cut at the operators outside of all parentheses. -/
def segments : ℕ → List Token → List Token × List (SetOp × List Token)
  | _, [] => ([], [])
  | d, t :: ts =>
      match if d = 0 then setWord t else none with
      | some op => ([], (op, (segments 0 ts).1) :: (segments 0 ts).2)
      | none =>
          let e := if t = openParen then d + 1 else if t = closeParen then d - 1 else d
          (t :: (segments e ts).1, (segments e ts).2)

/-- ALL belongs to the UNION in front of it. -/
def readAll : SetOp × List Token → SetOp × List Token
  | (.union, .word text :: ts) =>
      if text = ascii "ALL" then (.unionAll, ts) else (.union, .word text :: ts)
  | x => x

/-- The texts of the operands, and the tree that combines them by their numbers. -/
def parseSets (ts : List Token) : List (List Token) × SetTree ℕ :=
  let chain := (segments 0 ts).2.map readAll
  ((segments 0 ts).1 :: chain.map Prod.snd,
    readChain .node id (.leaf 0) (((chain.map Prod.fst).zipIdx 1).map fun x => (x.1, .leaf x.2)))

/-- The operator as it is written. -/
def SetOp.tokens : SetOp → List Token
  | .union => [.word (ascii "UNION")]
  | .unionAll => [.word (ascii "UNION"), .word (ascii "ALL")]
  | .intersect => [.word (ascii "INTERSECT")]
  | .except => [.word (ascii "EXCEPT")]

/-- The text of a query without parentheses around its operands. -/
def SetTree.tokens : SetTree (List Token) → List Token
  | .leaf ts => ts
  | .node op left right => left.tokens ++ op.tokens ++ right.tokens

def SetTree.leaves {α : Type*} (t : SetTree α) : List α := t.first :: t.rest.map Prod.snd

theorem SetTree.leaves_node {α : Type*} (op : SetOp) (left right : SetTree α) :
    (node op left right).leaves = left.leaves ++ right.leaves := by
  simp [leaves, first, rest]

/-- The text of an operand: outside of parentheses there is no operator in it, and it does
not begin with ALL. -/
structure IsOperandText (ts : List Token) : Prop where
  depth : depthAfter isSetWord 0 ts = some 0
  head : ts.head? ≠ some (.word (ascii "ALL"))

theorem segments_append {d : ℕ} {ts : List Token} (us : List Token)
    (h : depthAfter isSetWord d ts = some 0) :
    segments d (ts ++ us) = (ts ++ (segments 0 us).1, (segments 0 us).2) := by
  induction ts generalizing d with
  | nil =>
    obtain rfl := Option.some.inj h
    rfl
  | cons t ts ih =>
    have hstop : (isSetWord t && d == 0) = false := by
      by_contra hstop
      rw [Bool.not_eq_false] at hstop
      simp [depthAfter, hstop] at h
    have hnone : (if d = 0 then setWord t else none) = none := by
      split_ifs with hd
      · simpa [hd, isSetWord] using hstop
      · rfl
    simp only [depthAfter, hstop, Bool.false_eq_true, if_false] at h
    simp only [List.cons_append, segments, hnone]
    split_ifs at h ⊢
    · rw [ih h]
    · cases d with
      | zero => cases h
      | succ d => rw [Nat.add_sub_cancel, ih h]
    · rw [ih h]

/-- What `segments` leaves of an operand and its operator. -/
def rawSegment : SetOp × List Token → SetOp × List Token
  | (.unionAll, ts) => (.union, .word (ascii "ALL") :: ts)
  | x => x

theorem readAll_rawSegment {x : SetOp × List Token} (h : IsOperandText x.2) :
    readAll (rawSegment x) = x := by
  obtain ⟨op, ts⟩ := x
  cases op with
  | union =>
    rcases ts with _ | ⟨t, ts⟩
    · rfl
    · cases t with
      | word text =>
        have hne : text ≠ ascii "ALL" := fun heq => h.head (by rw [heq]; rfl)
        exact if_neg hne
      | _ => rfl
  | unionAll => simp [rawSegment, readAll]
  | _ => rfl

theorem segments_op (op : SetOp) {ts us : List Token}
    {more : List (SetOp × List Token)} (h : segments 0 ts = (us, more)) :
    segments 0 (op.tokens ++ ts) = ([], rawSegment (op, us) :: more) := by
  have hall : segments 0 (.word (ascii "ALL") :: ts) = (.word (ascii "ALL") :: us, more) := by
    rw [← List.singleton_append, segments_append ts (by decide), h]
    rfl
  cases op with
  | unionAll =>
    change ([], (SetOp.union, (segments 0 (.word (ascii "ALL") :: ts)).1) ::
      (segments 0 (.word (ascii "ALL") :: ts)).2) = _
    rw [hall]
    rfl
  | _ =>
    change ([], (_, (segments 0 ts).1) :: (segments 0 ts).2) = _
    rw [h]
    rfl

theorem segments_tokens {s : SetTree (List Token)} (hs : ∀ ts ∈ s.leaves, IsOperandText ts)
    {us : List Token} {more : List (SetOp × List Token)} (h : segments 0 us = ([], more)) :
    segments 0 (s.tokens ++ us) = (s.first, s.rest.map rawSegment ++ more) := by
  induction s generalizing us more with
  | leaf ts =>
    have hts := hs ts (by simp [SetTree.leaves, SetTree.first])
    simp [SetTree.tokens, segments_append us hts.depth, h, SetTree.first, SetTree.rest]
  | node op left right ihl ihr =>
    rw [SetTree.leaves_node] at hs
    have hleft : ∀ ts ∈ left.leaves, IsOperandText ts := fun ts hts =>
      hs ts (List.mem_append_left _ hts)
    have hright : ∀ ts ∈ right.leaves, IsOperandText ts := fun ts hts =>
      hs ts (List.mem_append_right _ hts)
    rw [SetTree.tokens, List.append_assoc, List.append_assoc,
      ihl hleft (segments_op op (ihr hright h))]
    simp [SetTree.first, SetTree.rest]

/-- Reading the text of a query gives its operands, and the regrouped tree. -/
theorem parseSets_tokens {s : SetTree (List Token)} (hs : ∀ ts ∈ s.leaves, IsOperandText ts) :
    parseSets s.tokens = (s.leaves, (s.number 0).reparse) := by
  have hsegments : segments 0 s.tokens = (s.first, s.rest.map rawSegment) := by
    simpa using segments_tokens hs (rfl : segments 0 [] = ([], []))
  have hrest : (s.rest.map rawSegment).map readAll = s.rest := by
    rw [List.map_map]
    refine (List.map_congr_left fun x hx => ?_).trans (List.map_id _)
    exact readAll_rawSegment (hs x.2 (List.mem_cons_of_mem _ (List.mem_map_of_mem hx)))
  rw [parseSets, hsegments, hrest, SetTree.rest_fst, SetTree.reparse, SetTree.number_first,
    SetTree.number_rest]
  rfl

end Demiplane.Sql

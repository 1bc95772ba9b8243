import Mathlib.Data.List.Nodup
import Mathlib.Data.List.TakeWhile
import Mathlib.Tactic.Common

/-!
One session of a transactional SQL server, as its client sees it. Outside of a
transaction block a query commits on its own. A block collects effects until
COMMIT or ROLLBACK; an error in it aborts it, and an aborted block takes nothing
but ROLLBACK TO, ROLLBACK and COMMIT, the last of which then rolls back and
still answers OK.

What a query does is of no interest here and stays a parameter: `ε` is the type
of effects. A statement that the server could carry out may be refused all the
same (a constraint, a conflict, a limit), which `accepts` decides.
-/

namespace Demiplane.Sql

variable {ε : Type*}

/-- Statements that neither open nor close a block. -/
inductive Command (ε : Type*) where
  | savepoint (name : String)
  | rollbackTo (name : String)
  | release (name : String)
  | query (effect : ε)

inductive Statement (ε : Type*) where
  | begin
  | commit
  | rollback
  | command (c : Command ε)

/-! ### Blocks -/

/-- A transaction block. Every savepoint, the innermost first, keeps the effects
that the block had when it was set. -/
structure Block (ε : Type*) where
  effects : List ε
  aborted : Bool
  savepoints : List (String × List ε)

namespace Block

def opened : Block ε := ⟨[], false, []⟩

def abort (b : Block ε) : Block ε := { b with aborted := true }

def names (b : Block ε) : List String := b.savepoints.map Prod.fst

/-- The savepoint `name` and those around it. -/
def downTo (b : Block ε) (name : String) : List (String × List ε) :=
  b.savepoints.dropWhile fun sp => sp.1 ≠ name

/-- The block after a command that is carried out; `none` if it is an error. -/
def apply (b : Block ε) : Command ε → Option (Block ε)
  | .savepoint name =>
      if b.aborted then none else some { b with savepoints := (name, b.effects) :: b.savepoints }
  | .rollbackTo name =>
      match b.downTo name with
      | [] => none
      | sp :: outer => some ⟨sp.2, false, sp :: outer⟩
  | .release name =>
      if b.aborted then none
      else
        match b.downTo name with
        | [] => none
        | _ :: outer => some { b with savepoints := outer }
  | .query effect =>
      if b.aborted then none else some { b with effects := b.effects ++ [effect] }

/-- The savepoints inside of `name`: those that are set later. -/
def inside (b : Block ε) (name : String) : List String := b.names.takeWhile (· ≠ name)

theorem map_fst_downTo (b : Block ε) (name : String) :
    (b.downTo name).map Prod.fst = b.names.dropWhile (· ≠ name) := by
  simp [downTo, names, List.dropWhile_map, Function.comp_def]

variable {b : Block ε}

theorem downTo_of_mem {name : String} (h : name ∈ b.names) :
    ∃ es outer, b.downTo name = (name, es) :: outer := by
  cases hd : b.downTo name with
  | nil =>
      have hall := List.dropWhile_eq_nil_iff.mp hd
      obtain ⟨sp, hsp, rfl⟩ := List.mem_map.mp h
      simpa using hall sp hsp
  | cons sp outer =>
      unfold downTo at hd
      have hne : b.savepoints.dropWhile (fun sp => decide (sp.1 ≠ name)) ≠ [] := by
        rw [hd]
        exact List.cons_ne_nil sp outer
      have hhead := List.head_dropWhile_not _ hne
      simp only [hd, List.head_cons, decide_eq_false_iff_not, not_not] at hhead
      exact ⟨sp.2, outer, by rw [← hhead]⟩

/-- Where names are distinct, what stays in place when everything inside of
`name` goes is what was not inside of it. -/
theorem mem_downTo_iff (hnd : b.names.Nodup) (name m : String) :
    m ∈ (b.downTo name).map Prod.fst ↔ m ∈ b.names ∧ m ∉ b.inside name := by
  rw [map_fst_downTo, inside]
  have hsplit := List.takeWhile_append_dropWhile (p := (· ≠ name)) (l := b.names)
  have hdisj : List.Disjoint (b.names.takeWhile (· ≠ name)) (b.names.dropWhile (· ≠ name)) := by
    rw [← hsplit] at hnd
    exact List.disjoint_of_nodup_append hnd
  constructor
  · intro hm
    exact ⟨hsplit ▸ List.mem_append_right _ hm, fun hm' => hdisj hm' hm⟩
  · rintro ⟨hm, hm'⟩
    rw [← hsplit] at hm
    exact (List.mem_append.mp hm).resolve_left hm'

theorem not_mem_inside (b : Block ε) (name : String) : name ∉ b.inside name := by
  intro h
  simpa using List.mem_takeWhile_imp h

theorem nodup_downTo (hnd : b.names.Nodup) (name : String) :
    ((b.downTo name).map Prod.fst).Nodup := by
  rw [map_fst_downTo]
  exact (List.dropWhile_sublist _).nodup hnd

theorem apply_savepoint (ha : b.aborted = false) (name : String) :
    b.apply (.savepoint name) =
      some { b with savepoints := (name, b.effects) :: b.savepoints } := by
  simp [apply, ha]

/-- ROLLBACK TO a savepoint that is there takes what is inside of it. -/
theorem apply_rollbackTo (hnd : b.names.Nodup) {name : String}
    (h : name ∈ b.names) :
    ∃ b', b.apply (.rollbackTo name) = some b' ∧ b'.aborted = false ∧ b'.names.Nodup ∧
      ∀ m, m ∈ b'.names ↔ m ∈ b.names ∧ m ∉ b.inside name := by
  obtain ⟨es, outer, hd⟩ := downTo_of_mem h
  refine ⟨⟨es, false, (name, es) :: outer⟩, by simp [apply, hd], rfl, ?_, fun m => ?_⟩
  · rw [names, ← hd]
    exact nodup_downTo hnd name
  · rw [names, ← hd]
    exact mem_downTo_iff hnd name m

/-- RELEASE of a savepoint that is there takes it with what is inside of it. -/
theorem apply_release (ha : b.aborted = false) (hnd : b.names.Nodup)
    {name : String} (h : name ∈ b.names) :
    ∃ b', b.apply (.release name) = some b' ∧ b'.aborted = false ∧ b'.names.Nodup ∧
      ∀ m, m ∈ b'.names ↔ m ∈ b.names ∧ m ∉ b.inside name ∧ m ≠ name := by
  obtain ⟨es, outer, hd⟩ := downTo_of_mem h
  have hcons := nodup_downTo hnd name
  rw [hd, List.map_cons, List.nodup_cons] at hcons
  refine ⟨{ b with savepoints := outer }, by simp [apply, ha, hd], ha, hcons.2, fun m => ?_⟩
  have hm := mem_downTo_iff hnd name m
  rw [hd, List.map_cons, List.mem_cons] at hm
  rw [← and_assoc, ← hm]
  refine ⟨fun hmem => ⟨.inr hmem, ?_⟩, fun hmem => hmem.1.resolve_left hmem.2⟩
  rintro rfl
  exact hcons.1 hmem

end Block

/-! ### Sessions -/

/-- A session: the block it is in, and the effects it has committed, one list
for every transaction. -/
structure Session (ε : Type*) where
  block : Option (Block ε)
  durable : List (List ε)

namespace Session

def connected : Session ε := ⟨none, []⟩

/-- The session when its block, if there is one, has gone without a trace. -/
def closed (s : Session ε) : Session ε := { s with block := none }

/-- What a command does to the block it is sent in. -/
def inBlock (s : Session ε) (b : Block ε) (c : Command ε) (accepts : Bool) : Session ε × Bool :=
  match if accepts then b.apply c else none with
  | some b' => ({ s with block := some b' }, true)
  | none => ({ s with block := some b.abort }, false)

/-- The session after a statement that reaches the server, and whether the
server answers OK. -/
def exec (s : Session ε) (stmt : Statement ε) (accepts : Bool) : Session ε × Bool :=
  match stmt, s.block with
  | .begin, none => if accepts then ({ s with block := some .opened }, true) else (s, false)
  -- a BEGIN within a block is answered with a warning
  | .begin, some b =>
      if b.aborted then (s, false)
      else if accepts then (s, true)
      else ({ s with block := some b.abort }, false)
  | .commit, none => (s, accepts)
  | .commit, some b =>
      if b.aborted then (s.closed, true)
      else if accepts then (⟨none, s.durable ++ [b.effects]⟩, true)
      else (s.closed, false)
  | .rollback, _ => (s.closed, accepts)
  | .command (.query effect), none =>
      if accepts then ({ s with durable := s.durable ++ [[effect]] }, true) else (s, false)
  | .command _, none => (s, false)
  | .command c, some b => s.inBlock b c accepts

/-- No command opens or closes a block. -/
theorem exec_command_isSome (s : Session ε) (c : Command ε) (accepts : Bool) :
    (s.exec (.command c) accepts).1.block.isSome = s.block.isSome := by
  cases hb : s.block with
  | none => cases c <;> cases accepts <;> simp [exec, hb]
  | some b =>
      simp only [exec, hb, inBlock]
      split <;> rfl

variable {s : Session ε}

theorem exec_begin_of_none (hb : s.block = none) (accepts : Bool) :
    s.exec .begin accepts =
      if accepts then ({ s with block := some .opened }, true) else (s, false) := by
  obtain ⟨block, durable⟩ := s
  cases hb
  rfl

theorem exec_begin_of_some (hb : s.block = some b)
    (accepts : Bool) :
    s.exec .begin accepts =
      if b.aborted then (s, false)
      else if accepts then (s, true)
      else ({ s with block := some b.abort }, false) := by
  obtain ⟨block, durable⟩ := s
  cases hb
  rfl

theorem exec_commit_of_none (hb : s.block = none) (accepts : Bool) :
    s.exec .commit accepts = (s, accepts) := by
  obtain ⟨block, durable⟩ := s
  cases hb
  rfl

theorem exec_commit_of_some (hb : s.block = some b)
    (accepts : Bool) :
    s.exec .commit accepts =
      if b.aborted then (s.closed, true)
      else if accepts then (⟨none, s.durable ++ [b.effects]⟩, true)
      else (s.closed, false) := by
  obtain ⟨block, durable⟩ := s
  cases hb
  rfl

@[simp] theorem exec_commit_block (s : Session ε) (accepts : Bool) :
    (s.exec .commit accepts).1.block = none := by
  cases hb : s.block with
  | none => rw [exec_commit_of_none hb, hb]
  | some b =>
      rw [exec_commit_of_some hb]
      split_ifs <;> rfl

@[simp] theorem exec_rollback_block (s : Session ε) (accepts : Bool) :
    (s.exec .rollback accepts).1.block = none :=
  rfl

theorem exec_begin_of_ok {accepts : Bool} (h : (s.exec .begin accepts).2 = true) :
    (s.exec .begin accepts).1.block.isSome = true := by
  cases hb : s.block with
  | none =>
      rw [exec_begin_of_none hb] at h ⊢
      cases accepts with
      | false => cases h
      | true => rfl
  | some b =>
      rw [exec_begin_of_some hb]
      split_ifs
      all_goals simp [hb]

/-- A BEGIN that is answered with an error opens no block. -/
theorem exec_begin_of_error {accepts : Bool}
    (h : (s.exec .begin accepts).2 = false) (hs : s.block = none) :
    (s.exec .begin accepts).1.block = none := by
  rw [exec_begin_of_none hs] at h ⊢
  cases accepts with
  | false => exact hs
  | true => cases h

/-- A COMMIT that is answered with OK commits the effects of the block, unless
the block is aborted. -/
theorem exec_commit_durable {accepts : Bool}
    (hb : s.block = some b) (h : (s.exec .commit accepts).2 = true) :
    (s.exec .commit accepts).1.durable =
      s.durable ++ if b.aborted then [] else [b.effects] := by
  rw [exec_commit_of_some hb] at h ⊢
  split_ifs at h ⊢ <;> simp_all [closed]

end Session

end Demiplane.Sql

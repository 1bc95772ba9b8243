import Demiplane.Postgres.Capabilities.Savepoints

/-!
Savepoints within one active transaction, and the stack that the server keeps of
them. A `Savepoint` knows its own name and whether it is active. RELEASE and
ROLLBACK TO also take the savepoints that were set inside of the one they name,
and the objects of those are not told. That is the only way in which objects and
stack can part.
-/

namespace Demiplane.Postgres.Capabilities

open Errors Sql Transition World

variable {ε : Type*}

/-! ### What is done with savepoints -/

/-- `r` is the error that the server answers with if the statement is one. -/
inductive Nested where
  | create (s : ℕ) (name : String) (r : Refusal)
  | rollback (s : ℕ) (r : Refusal)
  | release (s : ℕ) (r : Refusal)
  | moveConstruct (s t : ℕ)
  | moveAssign (s t : ℕ) (r : Refusal)
  | destroy (s : ℕ) (r : Refusal)

namespace Nested

/-- The action on the transaction in place `i`. Every statement is sent, and the
server carries it out if it can. -/
def action (i : ℕ) : Nested → Action ε
  | .create s name r => .savepoint i s name (.answered true r)
  | .rollback s r => .savepointRollback s (.answered true r)
  | .release s r => .savepointRelease s (.answered true r)
  | .moveConstruct s t => .savepointMoveConstruct s t
  | .moveAssign s t r => .savepointMoveAssign s t (.answered true r)
  | .destroy s r => .savepointDestroy s (.answered true r)

/-- The names that are given out. -/
def names : Nested → List String
  | .create _ name _ => [name]
  | _ => []

/-- The savepoint that may send ROLLBACK TO or RELEASE. -/
def target : Nested → Option ℕ
  | .rollback s _ | .release s _ | .destroy s _ => some s
  | .moveAssign s t _ => if s = t then none else some t
  | _ => none

end Nested

/-- The world, and the names of savepoints that have been given out. -/
structure Scope (ε : Type*) where
  world : World ε
  used : List String

/-- A step within the transaction in place `i`. No name is given out twice. -/
def nestedStep (i : ℕ) (st : Scope ε) (a : Nested) : Option (Scope ε) :=
  if ∃ n ∈ a.names, n ∈ st.used then none
  else (step st.world (a.action i)).map fun w => ⟨w, a.names ++ st.used⟩

/-- The active savepoint objects. -/
def Active (sps : ℕ → Option Savepoint) (s : ℕ) (sp : Savepoint) : Prop :=
  sps s = some sp ∧ sp.active = true

/-- Every active savepoint object names a savepoint that the server has. -/
def Tracked (k : ℕ) (st : Scope ε) : Prop :=
  ∀ s sp, Active st.world.savepoints s sp →
    ∃ b, (st.world.links k).session.block = some b ∧ sp.name ∈ b.names

/-- When a savepoint is rolled back or released, no other active object names a
savepoint inside of it. -/
def NothingInside (k : ℕ) (st : Scope ε) (a : Nested) : Prop :=
  ∀ s sp, a.target = some s → Active st.world.savepoints s sp →
    ∀ t sp', t ≠ s → Active st.world.savepoints t sp' →
      ∀ b, (st.world.links k).session.block = some b → sp'.name ∉ b.inside sp.name

def Aborted (k : ℕ) (w : World ε) : Prop :=
  ∃ b, (w.links k).session.block = some b ∧ b.aborted = true

/-- No destructor of a savepoint aborts the block. -/
def DestroysQuietly (i k : ℕ) (st : Scope ε) : Nested → Prop
  | .destroy s r => ∀ st', nestedStep i st (.destroy s r) = some st' → Aborted k st'.world →
      Aborted k st.world
  | _ => True

/-- The transaction in place `i` has begun on connection `k`; no savepoint is
set, and no object of one is active. -/
structure Begun (w : World ε) (i k : ℕ) : Prop where
  object : ∃ auto tx, w.objects i = some (.transaction auto tx) ∧ tx.status = .active ∧
    tx.conn = some k
  alive : (w.links k).alive = true
  block : ∃ b, (w.links k).session.block = some b ∧ b.aborted = false ∧ b.names = []
  inactive : ∀ s sp, ¬ Active w.savepoints s sp

/-! ### Tables of savepoint objects -/

theorem active_update {sps : ℕ → Option Savepoint} {s u : ℕ} {o : Option Savepoint}
    {x : Savepoint} : Active (Function.update sps s o) u x ↔
      u = s ∧ o = some x ∧ x.active = true ∨ u ≠ s ∧ Active sps u x := by
  unfold Active
  by_cases hus : u = s
  · subst hus
    simp
  · simp [hus]

/-- The active objects are on connection `k`, and their names are given out and
distinct. -/
structure Table (k : ℕ) (used : List String) (sps : ℕ → Option Savepoint) : Prop where
  conn : ∀ {s sp}, Active sps s sp → sp.conn = some k
  name : ∀ {s sp}, Active sps s sp → sp.name ∈ used
  distinct : ∀ {s t sp sp'}, Active sps s sp → Active sps t sp' → sp.name = sp'.name → s = t

namespace Table

variable {k s t : ℕ} {used used' : List String} {sps : ℕ → Option Savepoint} {sp : Savepoint}

theorem mono (h : Table k used sps) (hused : ∀ n ∈ used, n ∈ used') : Table k used' sps :=
  ⟨h.conn, fun hs => hused _ (h.name hs), h.distinct⟩

/-- An object goes, or is no longer active. -/
theorem vacate (h : Table k used sps) (s : ℕ) {o : Option Savepoint}
    (ho : ∀ x, o = some x → x.active = false) : Table k used (Function.update sps s o) := by
  have hold {u : ℕ} {x : Savepoint} (hu : Active (Function.update sps s o) u x) :
      Active sps u x := by
    rcases active_update.mp hu with ⟨-, hx, hactive⟩ | ⟨-, hu⟩
    · rw [ho x hx] at hactive
      cases hactive
    · exact hu
  exact ⟨fun hu => h.conn (hold hu), fun hu => h.name (hold hu),
    fun hu hv => h.distinct (hold hu) (hold hv)⟩

/-- An object comes whose name no other active object has. -/
theorem put (h : Table k used sps) (t : ℕ) (hconn : sp.active = true → sp.conn = some k)
    (hname : sp.active = true → sp.name ∈ used)
    (hnew : ∀ u x, u ≠ t → Active sps u x → sp.active = true → x.name ≠ sp.name) :
    Table k used (Function.update sps t (some sp)) where
  conn hu := by
    rcases active_update.mp hu with ⟨-, hx, hactive⟩ | ⟨-, hu⟩
    · obtain rfl := Option.some.inj hx
      exact hconn hactive
    · exact h.conn hu
  name hu := by
    rcases active_update.mp hu with ⟨-, hx, hactive⟩ | ⟨-, hu⟩
    · obtain rfl := Option.some.inj hx
      exact hname hactive
    · exact h.name hu
  distinct {u v x y} hu hv hxy := by
    rcases active_update.mp hu with ⟨rfl, hx, hactive⟩ | ⟨hut, hu⟩ <;>
      rcases active_update.mp hv with ⟨hvt, hy, hactive'⟩ | ⟨hvt, hv⟩
    · exact hvt.symm
    · obtain rfl := Option.some.inj hx
      exact absurd hxy.symm (hnew v y hvt hv hactive)
    · obtain rfl := Option.some.inj hy
      exact absurd hxy (hnew u x hut hu hactive')
    · exact h.distinct hu hv hxy

theorem push (h : Table k used sps) {name : String} (hname : name ∉ used) (s : ℕ)
    (origin : Option Borrow) :
    Table k (name :: used) (Function.update sps s (some ⟨some k, name, true, origin⟩)) := by
  refine (h.mono fun n hn => List.mem_cons_of_mem name hn).put s (fun _ => rfl)
    (fun _ => List.mem_cons_self ..) fun u x _ hu _ hx => ?_
  change x.name = name at hx
  exact hname (hx ▸ h.name hu)

theorem move (h : Table k used sps) (hs : sps s = some sp) (t : ℕ) :
    Table k used (Function.update (Function.update sps s (some sp.movedFrom)) t (some sp)) := by
  have hvacated := h.vacate s (o := some sp.movedFrom) fun x hx => Option.some.inj hx ▸ rfl
  refine hvacated.put t (fun hactive => h.conn ⟨hs, hactive⟩)
    (fun hactive => h.name ⟨hs, hactive⟩) fun u x _ hu hactive hxsp => ?_
  rcases active_update.mp hu with ⟨-, hx, hactive'⟩ | ⟨hus, hu⟩
  · obtain rfl := Option.some.inj hx
    cases hactive'
  · exact hus (h.distinct hu ⟨hs, hactive⟩ hxsp)

end Table

/-- What is active after a move to place `t` was active before, elsewhere. -/
theorem active_move {sps : ℕ → Option Savepoint} {s t : ℕ} {sp x : Savepoint}
    (hs : sps s = some sp) (hst : s ≠ t) :
    (∃ u, Active (Function.update (Function.update sps s (some sp.movedFrom)) t (some sp)) u x) ↔
      ∃ u, u ≠ t ∧ Active sps u x := by
  constructor
  · rintro ⟨u, hu⟩
    rcases active_update.mp hu with ⟨-, hx, hactive⟩ | ⟨hut, hu⟩
    · obtain rfl := Option.some.inj hx
      exact ⟨s, hst, hs, hactive⟩
    · rcases active_update.mp hu with ⟨-, hx, hactive⟩ | ⟨-, hu⟩
      · obtain rfl := Option.some.inj hx
        cases hactive
      · exact ⟨u, hut, hu⟩
  · rintro ⟨u, hut, hu⟩
    by_cases hus : u = s
    · subst hus
      obtain rfl := Option.some.inj (hs.symm.trans hu.1)
      exact ⟨t, active_update.mpr (.inl ⟨rfl, rfl, hu.2⟩)⟩
    · exact ⟨u, active_update.mpr (.inr ⟨hut, active_update.mpr (.inr ⟨hus, hu⟩)⟩)⟩

theorem active_vacate {sps : ℕ → Option Savepoint} {s : ℕ} {o : Option Savepoint} {x : Savepoint}
    (ho : ∀ y, o = some y → y.active = false) :
    (∃ u, Active (Function.update sps s o) u x) ↔ ∃ u, u ≠ s ∧ Active sps u x := by
  refine exists_congr fun u => ?_
  rw [active_update]
  refine ⟨fun hu => hu.resolve_left fun hx => ?_, .inr⟩
  rw [ho x hx.2.1] at hx
  cases hx.2.2

/-! ### The server's stack -/

/-- The transaction in place `i` is active in block `b` on connection `k`, and
the block has not been aborted. -/
structure Stacked (i k : ℕ) (st : Scope ε) (b : Block ε) : Prop where
  object : ∃ auto tx, st.world.objects i = some (.transaction auto tx) ∧ tx.status = .active ∧
    tx.conn = some k
  alive : (st.world.links k).alive = true
  block : (st.world.links k).session.block = some b
  running : b.aborted = false
  nodup : b.names.Nodup
  used : ∀ n ∈ b.names, n ∈ st.used
  table : Table k st.used st.world.savepoints

/-- A command that the server carries out in a block. -/
theorem Link.pqExec_apply {l : Link ε} {b b' : Block ε} {c : Command ε} (r : Refusal)
    (ha : l.alive = true) (hb : l.session.block = some b) (hc : b.apply c = some b') :
    l.pqExec (.command c) (.answered true r) =
      ({ l with session := { l.session with block := some b' } }, some .completed) := by
  simp [Link.pqExec, ha, Session.exec, hb, Session.inBlock, hc]

theorem succeeds_apply {w : World ε} {k : ℕ} {b b' : Block ε} {c : Command ε} (r : Refusal)
    (ha : (w.links k).alive = true) (hb : (w.links k).session.block = some b)
    (hc : b.apply c = some b') :
    w.succeeds (some k) (.command c) (.answered true r) = true := by
  simp [World.succeeds, Link.succeeds, Link.pqExec_apply r ha hb hc, Except.toBool]

namespace Stacked

variable {i k s : ℕ} {w : World ε} {used used' : List String} {b b' : Block ε}
  {sps : ℕ → Option Savepoint} {sp : Savepoint}

/-- The server carries out a command, and the table of objects changes with it. -/
theorem apply (h : Stacked i k ⟨w, used⟩ b) (r : Refusal) {c : Command ε}
    (hc : b.apply c = some b') (hrunning : b'.aborted = false) (hnodup : b'.names.Nodup)
    (hused : ∀ n ∈ b'.names, n ∈ used') (htable : Table k used' sps) :
    Stacked i k ⟨{ (w.pqExec none (some k) (.command c) (.answered true r)).1 with
      savepoints := sps }, used'⟩ b' := by
  have hlink : (w.pqExec none (some k) (.command c) (.answered true r)).1.links k =
      { w.links k with session := { (w.links k).session with block := some b' } } := by
    rw [pqExec_links, if_pos rfl, Link.pqExec_apply r h.alive h.block hc]
  refine ⟨?_, ?_, ?_, hrunning, hnodup, hused, htable⟩
  · obtain ⟨auto, tx, hi, hs, hconn⟩ := h.object
    exact ⟨auto, tx, hi, hs, hconn⟩
  · change ((w.pqExec none (some k) (.command c) (.answered true r)).1.links k).alive = true
    rw [hlink]
    exact h.alive
  · change ((w.pqExec none (some k) (.command c) (.answered true r)).1.links k).session.block =
      some b'
    rw [hlink]

/-- Nothing is sent. -/
theorem quiet (h : Stacked i k ⟨w, used⟩ b) (hused : ∀ n ∈ used, n ∈ used')
    (htable : Table k used sps) : Stacked i k ⟨{ w with savepoints := sps }, used'⟩ b :=
  ⟨h.object, h.alive, h.block, h.running, h.nodup, fun n hn => hused n (h.used n hn),
    htable.mono hused⟩

theorem tracked_iff {st : Scope ε} (h : Stacked i k st b) :
    Tracked k st ↔ ∀ sp, (∃ s, Active st.world.savepoints s sp) → sp.name ∈ b.names := by
  constructor
  · rintro ht sp ⟨s, hs⟩
    obtain ⟨b', hb', hmem⟩ := ht s sp hs
    obtain rfl := Option.some.inj (h.block.symm.trans hb')
    exact hmem
  · exact fun hall s sp hs => ⟨b, h.block, hall sp ⟨s, hs⟩⟩

theorem nothingInside_iff {st : Scope ε} {a : Nested} (h : Stacked i k st b)
    (ha : a.target = some s) (hs : Active st.world.savepoints s sp) :
    NothingInside k st a ↔
      ∀ sp', (∃ t, t ≠ s ∧ Active st.world.savepoints t sp') → sp'.name ∉ b.inside sp.name := by
  constructor
  · rintro hg sp' ⟨t, hts, ht⟩
    exact hg s sp ha hs t sp' hts ht b h.block
  · intro hall s' sp₁ ha' hs' t sp' hts ht b' hb'
    obtain rfl := Option.some.inj (ha.symm.trans ha')
    obtain rfl := Option.some.inj (hs.1.symm.trans hs'.1)
    obtain rfl := Option.some.inj (h.block.symm.trans hb')
    exact hall sp' ⟨t, hts, ht⟩

/-- A step from `st` to `st'` keeps the transaction going, and the objects with the
stack exactly if nothing was set inside. -/
def Exact (i k : ℕ) (st : Scope ε) (a : Nested) (st' : Scope ε) : Prop :=
  (Tracked k st' ↔ NothingInside k st a) ∧ ∃ b, Stacked i k st' b

theorem nothingInside_of_target {st : Scope ε} {a : Nested} (ha : a.target = none) :
    NothingInside k st a := by
  intro s sp hs
  rw [ha] at hs
  cases hs

theorem nothingInside_of_inactive {st : Scope ε} {a : Nested} (ha : a.target = some s)
    (hs : st.world.savepoints s = some sp) (hactive : sp.active = false) :
    NothingInside k st a := by
  rintro s' sp' ha' ⟨hs', hactive'⟩
  obtain rfl := Option.some.inj (ha.symm.trans ha')
  obtain rfl := Option.some.inj (hs.symm.trans hs')
  rw [hactive] at hactive'
  cases hactive'

/-- Nothing is sent, and nothing becomes active that was not. -/
theorem exact_quiet {a : Nested} (h : Stacked i k ⟨w, used⟩ b) (ht : Tracked k ⟨w, used⟩)
    (ha : NothingInside k ⟨w, used⟩ a) (hused : ∀ n ∈ used, n ∈ used')
    (htable : Table k used sps)
    (hsps : ∀ x, (∃ u, Active sps u x) → ∃ u, Active w.savepoints u x) :
    Exact i k ⟨w, used⟩ a ⟨{ w with savepoints := sps }, used'⟩ := by
  have hquiet := h.quiet hused htable
  refine ⟨⟨fun _ => ha, fun _ => hquiet.tracked_iff.mpr fun x hx => ?_⟩, b, hquiet⟩
  exact h.tracked_iff.mp ht x (hsps x hx)

/-- SAVEPOINT with a name that was never given out. -/
theorem exact_push {a : Nested} (h : Stacked i k ⟨w, used⟩ b) (ht : Tracked k ⟨w, used⟩)
    (ha : NothingInside k ⟨w, used⟩ a) (r : Refusal) {name : String} (hname : name ∉ used)
    {origin : Option Borrow} :
    Exact i k ⟨w, used⟩ a ⟨{ (w.pqExec none (some k) (.command (.savepoint name))
      (.answered true r)).1 with
        savepoints := Function.update w.savepoints s (some ⟨some k, name, true, origin⟩) },
      name :: used⟩ := by
  have hpush := h.apply r (Block.apply_savepoint h.running name) h.running
    (List.nodup_cons.mpr ⟨fun hmem => hname (h.used name hmem), h.nodup⟩)
    (fun n hn => ?_)
    (h.table.push hname s origin)
  · refine ⟨⟨fun _ => ha, fun _ => hpush.tracked_iff.mpr fun x hx => ?_⟩, _, hpush⟩
    obtain ⟨u, hu⟩ := hx
    rcases active_update.mp hu with ⟨-, hx, -⟩ | ⟨-, hu⟩
    · obtain rfl := Option.some.inj hx
      exact List.mem_cons_self ..
    · exact List.mem_cons_of_mem _ (h.tracked_iff.mp ht x ⟨u, hu⟩)
  · rcases List.mem_cons.mp hn with rfl | hn
    · exact List.mem_cons_self ..
    · exact List.mem_cons_of_mem _ (h.used n hn)

/-- `Transaction::savepoint`, which sends nothing if the name is not valid. -/
theorem exact_create {w' : World ε} (h : Stacked i k ⟨w, used⟩ b) (ht : Tracked k ⟨w, used⟩)
    (r : Refusal) {name : String} (hname : name ∉ used)
    (hstep : step w (.savepoint i s name (.answered true r)) = some w') :
    Exact i k ⟨w, used⟩ (.create s name r) ⟨w', name :: used⟩ := by
  obtain ⟨auto, tx, hi, hstatus, hconn⟩ := h.object
  change w.objects i = _ at hi
  have hquiet : NothingInside k ⟨w, used⟩ (.create s name r) := nothingInside_of_target rfl
  cases hs : w.savepoints s with
  | some sp => simp [step, hs] at hstep
  | none =>
      by_cases hvalid : isValidIdentifier name = true
      · have hok : w.succeeds tx.conn (.command (.savepoint name)) (.answered true r) = true := by
          rw [hconn]
          exact succeeds_apply r h.alive h.block (Block.apply_savepoint h.running name)
        simp only [step, hi, hs, savepoint_of_succeeds hstatus hvalid hok, putSavepoint,
          pqExec_savepoints, hconn, Option.some.injEq] at hstep
        subst hstep
        exact h.exact_push ht hquiet r hname
      · simp only [step, hi, hs, World.savepoint, hstatus, hvalid, if_true, if_false,
          Bool.false_eq_true, Option.some.injEq] at hstep
        subst hstep
        exact h.exact_quiet ht hquiet (fun n hn => List.mem_cons_of_mem name hn) h.table
          fun _ => id

/-- ROLLBACK TO by the object in place `s`, or nothing if that is not active. -/
theorem exact_rollback {a : Nested} (h : Stacked i k ⟨w, used⟩ b) (ht : Tracked k ⟨w, used⟩)
    (ha : a.target = some s) (r : Refusal) (hs : w.savepoints s = some sp) :
    Exact i k ⟨w, used⟩ a ⟨(w.pqExec none (if sp.active then sp.conn else none)
      (.command (.rollbackTo sp.name)) (.answered true r)).1, used⟩ := by
  cases hactive : sp.active with
  | false =>
      exact h.exact_quiet ht (nothingInside_of_inactive ha hs hactive) (fun _ => id) h.table
        fun _ => id
  | true =>
      have hon : sp.name ∈ b.names := h.tracked_iff.mp ht sp ⟨s, hs, hactive⟩
      obtain ⟨b', hc, hrunning, hnodup, hmem⟩ := Block.apply_rollbackTo h.nodup hon
      have hafter := h.apply r hc hrunning hnodup
        (fun n hn => h.used n ((hmem n).mp hn).1) h.table
      rw [if_pos rfl, h.table.conn ⟨hs, hactive⟩]
      refine ⟨?_, b', hafter⟩
      rw [h.nothingInside_iff ha ⟨hs, hactive⟩]
      refine hafter.tracked_iff.trans ⟨fun hall x ⟨u, _, hu⟩ => ?_, fun hall x hx => ?_⟩
      · exact ((hmem x.name).mp (hall x ⟨u, hu⟩)).2
      · obtain ⟨u, hu⟩ := hx
        refine (hmem x.name).mpr ⟨h.tracked_iff.mp ht x ⟨u, hu⟩, ?_⟩
        -- the savepoint that is rolled back to stays, unlike one that is released
        by_cases hus : u = s
        · subst hus
          obtain rfl := Option.some.inj (hs.symm.trans hu.1)
          exact b.not_mem_inside sp.name
        · exact hall x ⟨u, hus, hu⟩

/-- RELEASE by the object in place `s`, or nothing if that is not active. What is
active afterwards was active before in another place. -/
theorem exact_release {a : Nested} (h : Stacked i k ⟨w, used⟩ b) (ht : Tracked k ⟨w, used⟩)
    (ha : a.target = some s) (r : Refusal) (hs : w.savepoints s = some sp)
    (htable : Table k used sps)
    (hsps : ∀ x, (∃ u, Active sps u x) ↔ ∃ u, u ≠ s ∧ Active w.savepoints u x) :
    Exact i k ⟨w, used⟩ a ⟨{ (w.pqExec none (if sp.active then sp.conn else none)
      (.command (.release sp.name)) (.answered true r)).1 with savepoints := sps }, used⟩ := by
  cases hactive : sp.active with
  | false =>
      refine h.exact_quiet ht (nothingInside_of_inactive ha hs hactive) (fun _ => id) htable
        fun x hx => ?_
      obtain ⟨u, -, hu⟩ := (hsps x).mp hx
      exact ⟨u, hu⟩
  | true =>
      have hon : sp.name ∈ b.names := h.tracked_iff.mp ht sp ⟨s, hs, hactive⟩
      obtain ⟨b', hc, hrunning, hnodup, hmem⟩ := Block.apply_release h.running h.nodup hon
      have hafter := h.apply r hc hrunning hnodup
        (fun n hn => h.used n ((hmem n).mp hn).1) htable
      rw [if_pos rfl, h.table.conn ⟨hs, hactive⟩]
      refine ⟨?_, b', hafter⟩
      rw [h.nothingInside_iff ha ⟨hs, hactive⟩]
      refine hafter.tracked_iff.trans ⟨fun hall x hx => ?_, fun hall x hx => ?_⟩
      · exact ((hmem x.name).mp (hall x ((hsps x).mpr hx))).2.1
      · have hx' := (hsps x).mp hx
        obtain ⟨u, hus, hu⟩ := hx'
        refine (hmem x.name).mpr ⟨h.tracked_iff.mp ht x ⟨u, hu⟩, hall x ⟨u, hus, hu⟩, ?_⟩
        -- the name that is gone belongs to no other object
        exact fun hname => hus (h.table.distinct hu ⟨hs, hactive⟩ hname)

/-- An object whose RELEASE is sent is not active afterwards. -/
theorem inactive_of_release (h : Stacked i k ⟨w, used⟩ b) (ht : Tracked k ⟨w, used⟩)
    (hs : w.savepoints s = some sp) (r : Refusal) :
    (sp.active && !w.succeeds sp.conn (.command (.release sp.name)) (.answered true r)) =
      false := by
  cases hactive : sp.active with
  | false => rfl
  | true =>
      have hon : sp.name ∈ b.names := h.tracked_iff.mp ht sp ⟨s, hs, hactive⟩
      obtain ⟨b', hc, -⟩ := Block.apply_release h.running h.nodup hon
      rw [h.table.conn ⟨hs, hactive⟩, succeeds_apply r h.alive h.block hc]
      rfl

theorem exact_moveConstruct {w' : World ε} {t : ℕ} (h : Stacked i k ⟨w, used⟩ b)
    (ht : Tracked k ⟨w, used⟩) (hstep : step w (.savepointMoveConstruct s t) = some w') :
    Exact i k ⟨w, used⟩ (.moveConstruct s t) ⟨w', used⟩ := by
  cases hs : w.savepoints s with
  | none => simp [step, hs] at hstep
  | some sp =>
      cases hempty : w.savepoints t with
      | some old => simp [step, hs, hempty] at hstep
      | none =>
          have hst : s ≠ t := by
            rintro rfl
            rw [hs] at hempty
            cases hempty
          simp only [step, hs, hempty, putSavepoint, Option.some.injEq] at hstep
          subst hstep
          refine h.exact_quiet ht (nothingInside_of_target rfl) (fun _ => id) (h.table.move hs t)
            fun x hx => ?_
          obtain ⟨u, -, hu⟩ := (active_move hs hst).mp hx
          exact ⟨u, hu⟩

/-- The object that is assigned to is released first; it is that object, not the
one that moves, which has to have nothing inside. -/
theorem exact_moveAssign {w' : World ε} {t : ℕ} {r : Refusal} (h : Stacked i k ⟨w, used⟩ b)
    (ht : Tracked k ⟨w, used⟩)
    (hstep : step w (.savepointMoveAssign s t (.answered true r)) = some w') :
    Exact i k ⟨w, used⟩ (.moveAssign s t r) ⟨w', used⟩ := by
  cases hs : w.savepoints s with
  | none => simp [step, hs] at hstep
  | some sp =>
      cases hold : w.savepoints t with
      | none => simp [step, hs, hold] at hstep
      | some old =>
          by_cases hst : s = t
          · simp only [step, hs, hold, if_pos hst, Option.some.injEq] at hstep
            subst hstep
            exact h.exact_quiet ht (nothingInside_of_target (if_pos hst)) (fun _ => id) h.table
              fun _ => id
          · have htarget : (Nested.moveAssign s t r).target = some t := if_neg hst
            simp only [step, hs, hold, if_neg hst, savepointRelease_fst, putSavepoint,
              pqExec_savepoints, Option.some.injEq] at hstep
            subst hstep
            exact h.exact_release ht htarget r hold (h.table.move hs t) fun x => active_move hs hst

end Stacked

theorem exact_step {i k : ℕ} {st st' : Scope ε} {a : Nested} {b : Block ε}
    (h : Stacked i k st b) (ht : Tracked k st) (hstep : nestedStep i st a = some st') :
    Stacked.Exact i k st a st' := by
  obtain ⟨w, used⟩ := st
  unfold nestedStep at hstep
  split_ifs at hstep with hnames
  obtain ⟨w', hw, rfl⟩ := Option.map_eq_some_iff.mp hstep
  cases a with
  | create s name r =>
      have hname : name ∉ used := fun hmem => hnames ⟨name, List.mem_singleton_self name, hmem⟩
      exact h.exact_create ht r hname hw
  | rollback s r =>
      cases hs : w.savepoints s with
      | none => simp [Nested.action, step, hs] at hw
      | some sp =>
          simp only [Nested.action, step, hs, savepointRollback_fst, Option.some.injEq] at hw
          subst hw
          exact h.exact_rollback ht rfl r hs
  | release s r =>
      cases hs : w.savepoints s with
      | none => simp [Nested.action, step, hs] at hw
      | some sp =>
          have hinactive := h.inactive_of_release ht hs r
          simp only [Nested.action, step, hs, savepointRelease_fst, savepointRelease_snd,
            putSavepoint, pqExec_savepoints, hinactive, Option.some.injEq] at hw
          subst hw
          have hgone (x : Savepoint) (hx : some { sp with active := false } = some x) :
              x.active = false := Option.some.inj hx ▸ rfl
          exact h.exact_release ht rfl r hs (h.table.vacate s hgone) fun x => active_vacate hgone
  | moveConstruct s t => exact h.exact_moveConstruct ht hw
  | moveAssign s t r => exact h.exact_moveAssign ht hw
  | destroy s r =>
      cases hs : w.savepoints s with
      | none => simp [Nested.action, step, hs] at hw
      | some sp =>
          simp only [Nested.action, step, hs, savepointRelease_fst, dropSavepoint,
            pqExec_savepoints, Option.some.injEq] at hw
          subst hw
          have hgone (x : Savepoint) (hx : none = some x) : x.active = false := by cases hx
          exact h.exact_release ht rfl r hs (h.table.vacate s hgone) fun x => active_vacate hgone

theorem Begun.stacked {w : World ε} {i k : ℕ} (h : Begun w i k) :
    (∃ b, Stacked i k ⟨w, []⟩ b) ∧ Tracked k ⟨w, []⟩ := by
  obtain ⟨b, hb, hrunning, hnames⟩ := h.block
  refine ⟨⟨b, h.object, h.alive, hb, hrunning, ?_, ?_, ?_⟩,
    fun s sp hs => absurd hs (h.inactive s sp)⟩
  · simp [hnames]
  · simp [hnames]
  · exact ⟨fun hs => absurd hs (h.inactive _ _), fun hs => absurd hs (h.inactive _ _),
      fun hs => absurd hs (h.inactive _ _)⟩

/-- Within one transaction the active objects stay on the server's stack exactly
in the runs in which nothing is rolled back or released while another active
object names a savepoint inside of it; and in those runs no destructor aborts the
block. -/
theorem tracked_iff_nothingInside {w : World ε} {i k : ℕ} {as : List Nested} {st : Scope ε}
    (hw : Begun w i k) (hrun : run (nestedStep i) ⟨w, []⟩ as = some st) :
    (Always (nestedStep i) (Tracked k) ⟨w, []⟩ as ↔
        Guarded (nestedStep i) (NothingInside k) ⟨w, []⟩ as) ∧
      (Guarded (nestedStep i) (NothingInside k) ⟨w, []⟩ as →
        Guarded (nestedStep i) (DestroysQuietly i k) ⟨w, []⟩ as) := by
  obtain ⟨hstacked, htracked⟩ := hw.stacked
  constructor
  · refine always_iff_guarded_of_good (I := fun st => ∃ b, Stacked i k st b) hstacked htracked
      (fun st a st' ⟨b, h⟩ ht hstep => ?_) hrun
    obtain ⟨hexact, hstacked'⟩ := exact_step h ht hstep
    exact ⟨hexact, fun _ => hstacked'⟩
  · intro hg
    refine hg.mono (I := fun st => (∃ b, Stacked i k st b) ∧ Tracked k st) ⟨hstacked, htracked⟩
      (fun st a st' ⟨⟨b, h⟩, ht⟩ hga hstep => ?_) fun st a ⟨⟨b, h⟩, ht⟩ _ => ?_
    · obtain ⟨hexact, hstacked'⟩ := exact_step h ht hstep
      exact ⟨hstacked', hexact.mpr hga⟩
    · cases a with
      | destroy s r =>
          rintro st' hstep ⟨b₁, hb₁, haborted⟩
          obtain ⟨-, b', h'⟩ := exact_step h ht hstep
          obtain rfl := Option.some.inj (h'.block.symm.trans hb₁)
          rw [h'.running] at haborted
          cases haborted
      | _ => trivial

/-- A transaction has begun. -/
def begunAlone : List (Action ℕ) :=
  [.enter 0 (.beginTransaction {}) (some 0), .begin 0 accepted]

theorem begun_of_begunAlone {w : World ℕ} (h : run step start begunAlone = some w) :
    Begun w 0 0 := by
  cases h
  refine ⟨⟨false, _, rfl, rfl, rfl⟩, rfl, ⟨_, rfl, rfl, rfl⟩, ?_⟩
  rintro s sp ⟨hs, -⟩
  cases hs

/-- The inner savepoint goes first. -/
def innerFirst : List Nested :=
  [.create 0 "outer" refusal, .create 1 "inner" refusal, .release 1 refusal, .destroy 0 refusal]

theorem tracked_innerFirst :
    ∃ w st, run step start begunAlone = some w ∧ Begun w 0 0 ∧
      run (nestedStep 0) ⟨w, []⟩ innerFirst = some st ∧
      Always (nestedStep 0) (Tracked 0) ⟨w, []⟩ innerFirst ∧
      Guarded (nestedStep 0) (NothingInside 0) ⟨w, []⟩ innerFirst ∧
      Guarded (nestedStep 0) (DestroysQuietly 0 0) ⟨w, []⟩ innerFirst := by
  have hbegun := begun_of_begunAlone rfl
  refine ⟨_, _, rfl, hbegun, rfl, ?_⟩
  obtain ⟨hiff, hquiet⟩ :=
    tracked_iff_nothingInside hbegun (rfl : run (nestedStep 0) _ innerFirst = some ⟨_, _⟩)
  suffices hg : Guarded (nestedStep 0) (NothingInside 0) ⟨_, []⟩ innerFirst from
    ⟨hiff.mpr hg, hg, hquiet hg⟩
  iterate 2 refine (guarded_cons rfl).mpr ⟨Stacked.nothingInside_of_target rfl, ?_⟩
  refine (guarded_cons rfl).mpr ⟨?_, (guarded_cons rfl).mpr ⟨?_, ?_⟩⟩
  · rintro s sp hs ⟨hsp, -⟩ t sp' hts ⟨ht, hactive⟩ b hb
    cases hs
    cases hsp
    cases hb
    rcases t with _ | _ | t
    · cases ht
      exact List.not_mem_nil
    · exact absurd rfl hts
    · cases ht
  · rintro s sp hs ⟨hsp, -⟩ t sp' hts ⟨ht, hactive⟩ b hb
    cases hs
    rcases t with _ | _ | t
    · exact absurd rfl hts
    · cases ht
      cases hactive
    · cases ht
  · exact guarded_nil _ _

/-- The outer savepoint is released first: the object of the inner one is still
active, and its destructor aborts the block. -/
theorem outerFirst_untracked :
    ∃ w st st', run step start begunAlone = some w ∧ Begun w 0 0 ∧
      run (nestedStep 0) ⟨w, []⟩
        [.create 0 "outer" refusal, .create 1 "inner" refusal, .release 0 refusal] = some st ∧
      ¬ Tracked 0 st ∧ ¬ Aborted 0 st.world ∧
      nestedStep 0 st (.destroy 1 refusal) = some st' ∧ Aborted 0 st'.world := by
  refine ⟨_, _, _, rfl, begun_of_begunAlone rfl, rfl, ?_, ?_, rfl, _, rfl, rfl⟩
  · intro ht
    obtain ⟨b, hb, hmem⟩ := ht 1 _ ⟨rfl, rfl⟩
    cases hb
    cases hmem
  · rintro ⟨b, hb, haborted⟩
    cases hb
    cases haborted

end Demiplane.Postgres.Capabilities

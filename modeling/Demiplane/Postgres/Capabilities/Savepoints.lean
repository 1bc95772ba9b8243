import Demiplane.Postgres.Capabilities.Protocol

/-!
Savepoints and the borrow they belong to. A `Savepoint` keeps the bare
connection, and nothing keeps the transaction alive for it. It stays inside of
its borrow as long as no transaction goes while a savepoint of its is active, nor
the pool while any is.

Nothing is said about the connection itself: the pool may free a broken one as
soon as it is returned, and another one may have its address.
-/

namespace Demiplane.Postgres.Capabilities

open Custody Errors Sql Transition World

variable {ε : Type*}

/-- The savepoint whose member function, destructor or assignment may send a
statement. -/
def sendingSavepoint (w : World ε) : Action ε → Option Savepoint
  | .savepointRollback s _ | .savepointRelease s _ | .savepointDestroy s _ => w.savepoints s
  | .savepointMoveAssign s t _ => if s = t then none else w.savepoints t
  | _ => none

/-- A transaction object has the holder of borrow `b`. -/
def World.TransactionHolds (w : World ε) (b : Borrow) : Prop :=
  ∃ i auto tx, w.objects i = some (.transaction auto tx) ∧ tx.holder = some b

/-- If the savepoint has a connection, the pool is there and a transaction has the
borrow that it is from. -/
def World.Anchored (w : World ε) (sp : Savepoint) : Prop :=
  ∀ k, sp.conn = some k →
    w.poolAlive = true ∧ ∃ b, sp.origin = some b ∧ b.conn = k ∧ w.TransactionHolds b

/-- Whatever a savepoint hands to its connection, it does so while a transaction has
the borrow in which it was set. -/
def StaysInBorrow (w : World ε) (a : Action ε) : Prop :=
  ∀ sp, sendingSavepoint w a = some sp → sp.active = true → w.Anchored sp

/-- No savepoint of the borrow is active. -/
def World.NoneActive (w : World ε) (b : Borrow) : Prop :=
  ∀ s sp, w.savepoints s = some sp → sp.active = true → sp.origin ≠ some b

/-- A transaction is destroyed or assigned to only when none of its savepoints is
active, and the pool only when none is at all. -/
def OutlivesSavepoints (w : World ε) : Action ε → Prop
  | .destroy i _ => ∀ auto tx b, w.objects i = some (.transaction auto tx) → tx.holder = some b →
      w.NoneActive b
  | .moveAssign i j => i ≠ j → ∀ auto tx b, w.objects j = some (.transaction auto tx) →
      tx.holder = some b → w.NoneActive b
  | .destroyPool => ∀ s sp, w.savepoints s = some sp → sp.active = false
  | _ => True

/-- Every active savepoint is anchored. -/
def AllAnchored (w : World ε) : Prop :=
  ∀ s sp, w.savepoints s = some sp → sp.active = true → w.Anchored sp

section

variable {w w' : World ε} {i j k : ℕ} {c : Capability}

/-- Anchors stay where the pool does and the transactions of the borrows in question
keep their holders. -/
theorem World.Anchored.mono {sp : Savepoint} (h : w.Anchored sp)
    (hpool : w'.poolAlive = w.poolAlive)
    (hholds : ∀ b, sp.origin = some b → w.TransactionHolds b → w'.TransactionHolds b) :
    w'.Anchored sp := by
  intro k hk
  obtain ⟨hp, b, hb, hbk, hbholds⟩ := h k hk
  exact ⟨hpool.trans hp, b, hb, hbk, hholds b hb hbholds⟩

theorem World.TransactionHolds.of_ne {b : Borrow} (h : w.TransactionHolds b)
    (hi : ∀ auto tx, w.objects i = some (.transaction auto tx) → tx.holder ≠ some b)
    (hobjects : ∀ j, j ≠ i → w'.objects j = w.objects j) : w'.TransactionHolds b := by
  obtain ⟨j, auto, tx, hj, hb⟩ := h
  refine ⟨j, auto, tx, ?_, hb⟩
  rwa [hobjects j]
  rintro rfl
  exact hi auto tx hj hb

theorem transactionHolds_control {auto : Bool} {tx : Transaction} {b : Borrow}
    (h : w.TransactionHolds b) (hi : w.objects i = some (.transaction auto tx))
    (stmt : Statement ε) (done : TransactionStatus) (fate : Fate) :
    (w.control i auto tx stmt done fate).TransactionHolds b := by
  obtain ⟨j, auto', tx', hj, hb⟩ := h
  by_cases hji : j = i
  · subst hji
    cases Option.some.inj (hi.symm.trans hj)
    exact ⟨j, auto, _, objects_set_self .., hb⟩
  · refine ⟨j, auto', tx', ?_, hb⟩
    rw [World.control, World.put, objects_set_ne hji, pqExec_objects, hj]

theorem transactionHolds_transfer {b : Borrow} (h : w.TransactionHolds b)
    (hi : w.objects i = some c) (hij : i ≠ j)
    (hj : ∀ auto tx, w.objects j = some (.transaction auto tx) → tx.holder ≠ some b) :
    ((w.put i c.movedFrom).put j c).TransactionHolds b := by
  obtain ⟨m, auto, tx, hm, hb⟩ := h
  by_cases hmi : m = i
  · subst hmi
    obtain rfl := Option.some.inj (hi.symm.trans hm)
    exact ⟨j, auto, tx, objects_set_self .., hb⟩
  · refine ⟨m, auto, tx, ?_, hb⟩
    have hmj : m ≠ j := by
      rintro rfl
      exact hj auto tx hm hb
    rw [World.put, objects_set_ne hmj, World.put, objects_set_ne hmi, hm]

theorem savepoints_destroy (w : World ε) (c : Capability) (fate : Fate) :
    (w.destroy c fate).savepoints = w.savepoints := by
  rw [destroy_eq, letGo_savepoints]
  rcases safetyNet_cases w c fate with ⟨h, -⟩ | ⟨auto, tx, -, -, h⟩ <;> simp [h]

theorem poolAlive_destroy (w : World ε) (c : Capability) (fate : Fate) :
    (w.destroy c fate).poolAlive = w.poolAlive := by
  rw [destroy_eq, letGo_poolAlive, safetyNet_poolAlive]

theorem objects_destroy (w : World ε) (c : Capability) (fate : Fate) :
    (w.destroy c fate).objects = w.objects := by
  rw [destroy_eq, letGo_objects, safetyNet_objects]

theorem objects_unbegun {options : TransactionOptions} (hji : j ≠ i) :
    (w.unbegun i k options).objects j = w.objects j :=
  objects_set_ne hji

theorem objects_begun {options : TransactionOptions} {fate : Fate} (hji : j ≠ i) :
    (w.begun i k options fate).objects j = w.objects j := by
  rw [World.begun, World.control, World.put, objects_set_ne hji, pqExec_objects,
    objects_unbegun hji]

theorem poolAlive_begun {options : TransactionOptions} {fate : Fate} :
    (w.begun i k options fate).poolAlive = w.poolAlive := by
  rw [World.begun, World.control, World.put]
  exact pqExec_poolAlive ..

namespace AllAnchored

theorem start : AllAnchored (Capabilities.start : World ε) :=
  fun s sp hs => by cases hs

/-- The savepoints stay as they are, and so do the transactions of the active ones. -/
theorem mono (h : AllAnchored w) (hsps : w'.savepoints = w.savepoints)
    (hpool : w'.poolAlive = w.poolAlive)
    (hholds : ∀ b, ¬ w.NoneActive b → w.TransactionHolds b → w'.TransactionHolds b) :
    AllAnchored w' := by
  intro s sp hs hactive
  rw [hsps] at hs
  refine (h s sp hs hactive).mono hpool fun b hb hbholds => hholds b ?_ hbholds
  exact fun hnone => hnone s sp hs hactive hb

/-- An entry point that leaves no object has changed no other object. -/
theorem entered (h : AllAnchored w) (hl : Lendable w i k)
    (hsps : w'.savepoints = w.savepoints) (hpool : w'.poolAlive = w.poolAlive)
    (hobjects : ∀ j, j ≠ i → w'.objects j = w.objects j) : AllAnchored w' := by
  refine h.mono hsps hpool fun b _ hholds => hholds.of_ne (fun auto tx hi => ?_) hobjects
  rw [hl.empty] at hi
  cases hi

theorem command (hs : Sound w) (h : AllAnchored w) {sps : ℕ → Option Savepoint}
    (hd : Derived w sps) (conn : Option ℕ) (cmd : Command ε) (fate : Fate) :
    AllAnchored { (w.pqExec none conn (.command cmd) fate).1 with savepoints := sps } := by
  intro t sp ht hactive
  have hanchored : w.Anchored sp := by
    rcases hd t sp ht hactive with ⟨s, hs'⟩ | ⟨i, auto, tx, k', hi, -, hk', ha, hconn, horigin⟩
    · exact h s sp hs' hactive
    · intro k hk
      obtain rfl : k' = k := Option.some.inj (hk'.symm.trans (hconn.symm.trans hk))
      obtain ⟨b, hb, hbk⟩ := hs.holder_of_conn hi hk'
      exact ⟨hs.poolAlive_of_alive ha, b, horigin.trans hb, hbk, i, auto, tx, hi, hb⟩
  refine hanchored.mono (pqExec_poolAlive ..) fun b _ hholds => ?_
  obtain ⟨i, auto, tx, hi, hb⟩ := hholds
  exact ⟨i, auto, tx, by simpa using hi, hb⟩

end AllAnchored

end

theorem allAnchored_step {w w' : World ε} {a : Action ε} (hs : Sound w) (h : AllAnchored w)
    (hg : OutlivesSavepoints w a) (hstep : Step w a w') : AllAnchored w' := by
  cases hstep with
  | same => exact h
  | command a conn cmd fate hd => exact h.command hs hd conn cmd fate
  | control hc hi hstatus =>
      exact h.mono (pqExec_savepoints ..) (pqExec_poolAlive ..)
        fun b _ hholds => transactionHolds_control hholds hi _ _ _
  | handed hl hc => exact h.entered hl rfl rfl fun j hji => objects_set_ne hji
  | thrown hl hfail => exact h.entered hl rfl rfl fun _ _ => rfl
  | autoDeclined hl =>
      refine h.entered hl (savepoints_destroy ..) (poolAlive_destroy ..) fun j hji => ?_
      rw [World.drop, objects_set_ne hji, objects_destroy, objects_unbegun hji]
  | autoBegun hl =>
      exact h.entered hl (pqExec_savepoints ..) poolAlive_begun fun j => objects_begun
  | autoFailed hl htx hfailed =>
      refine h.entered hl ((savepoints_destroy ..).trans (pqExec_savepoints ..))
        ((poolAlive_destroy ..).trans poolAlive_begun) fun j hji => ?_
      rw [World.drop, objects_set_ne hji, objects_destroy, objects_begun hji]
  | @moveConstructed i j c hi hj =>
      have hij : i ≠ j := by
        rintro rfl
        rw [hi] at hj
        cases hj
      refine h.mono rfl rfl fun b _ hholds =>
        transactionHolds_transfer hholds hi hij fun auto tx hj' => ?_
      rw [hj] at hj'
      cases hj'
  | @moveAssigned i j c d hi hj hclass hij =>
      refine h.mono (letGo_savepoints ..) (letGo_poolAlive ..) fun b hactive hholds => ?_
      have hholds' : (w.letGo d.handle.holder).TransactionHolds b := by
        unfold World.TransactionHolds
        rwa [letGo_objects]
      refine transactionHolds_transfer hholds' (by rwa [letGo_objects]) hij
        fun auto tx hj' hb => ?_
      rw [letGo_objects] at hj'
      exact hactive (hg hij auto tx b hj' hb)
  | @destroyed i c fate hi =>
      refine h.mono (savepoints_destroy ..) (poolAlive_destroy ..)
        fun b hactive hholds => hholds.of_ne (i := i) (fun auto tx hi' hb => ?_) fun j hji => ?_
      · exact hactive (hg auto tx b hi' hb)
      · rw [World.drop, objects_set_ne hji, objects_destroy]
  | broke k => exact h.mono rfl rfl fun _ _ => id
  | poolGone =>
      intro s sp hs' hactive
      rw [hg s sp hs'] at hactive
      cases hactive

/-- In every run in which a transaction is destroyed or assigned to only when none of
its savepoints is active, and the pool only when none is, every statement of a
savepoint is sent while a transaction has the borrow it was set in. -/
theorem staysInBorrow_of_outlivesSavepoints {as : List (Action ε)}
    (hg : Guarded step OutlivesSavepoints start as) : Guarded step StaysInBorrow start as := by
  refine hg.mono (I := fun w => Sound w ∧ AllAnchored w) ⟨.start, .start⟩
    (fun w a w' hi hga hstep => ⟨sound_step hi.1 (step_cases hstep),
      allAnchored_step hi.1 hi.2 hga (step_cases hstep)⟩) fun w a hi _ sp hsend hactive => ?_
  obtain ⟨s, hs⟩ : ∃ s, w.savepoints s = some sp := by
    unfold sendingSavepoint at hsend
    split at hsend
    · exact ⟨_, hsend⟩
    · exact ⟨_, hsend⟩
    · exact ⟨_, hsend⟩
    · split_ifs at hsend
      exact ⟨_, hsend⟩
    · cases hsend
  exact hi.2 s sp hs hactive

/-- A savepoint goes before its transaction does. -/
def scopedSavepoint : List (Action ℕ) :=
  [.enter 0 (.beginTransaction {}) (some 0), .begin 0 accepted, .savepoint 0 0 "sp" accepted,
    .savepointDestroy 0 accepted, .commit 0 accepted, .destroy 0 accepted]

theorem staysInBorrow_scopedSavepoint :
    Guarded step OutlivesSavepoints start scopedSavepoint ∧
      Guarded step StaysInBorrow start scopedSavepoint := by
  have hg : Guarded step OutlivesSavepoints start scopedSavepoint := by
    iterate 5 refine (guarded_cons rfl).mpr ⟨trivial, ?_⟩
    refine (guarded_cons rfl).mpr ⟨fun auto tx b _ _ s sp hs => ?_, ?_⟩
    · cases s <;> cases hs
    · exact guarded_nil _ _
  exact ⟨hg, staysInBorrow_of_outlivesSavepoints hg⟩

/-- A savepoint outlives its transaction. The connection is lent to another one
by then, and the RELEASE of the destructor aborts the block of that. -/
theorem outlivingSavepoint_strays :
    ∃ w w' : World ℕ, run step start
        [.enter 0 (.beginTransaction {}) (some 0), .begin 0 accepted, .savepoint 0 0 "sp" accepted,
          .destroy 0 accepted, .enter 1 (.beginTransaction {}) (some 0), .begin 1 accepted] =
          some w ∧
      ¬ StaysInBorrow w (.savepointDestroy 0 accepted) ∧
      step w (.savepointDestroy 0 accepted) = some w' ∧
      ∃ block, (w'.links 0).session.block = some block ∧ block.aborted = true := by
  refine ⟨_, _, rfl, fun hstays => ?_, rfl, _, rfl, rfl⟩
  obtain ⟨b, hb, -, i, auto, tx, hi, hholder⟩ := (hstays _ rfl rfl 0 rfl).2
  obtain rfl := Option.some.inj hb
  rcases i with _ | _ | i
  · cases hi
  · cases hi
    cases hholder
  · cases hi

end Demiplane.Postgres.Capabilities

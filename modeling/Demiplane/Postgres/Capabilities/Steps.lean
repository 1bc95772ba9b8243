import Demiplane.Postgres.Capabilities.World

/-!
What one step can do. Everything that is sent goes through `pqExec`, which
touches one connection and the record of control statements; the rest of a step
lends a connection, returns one, or moves an object. `step_cases` says this once
for all actions, and every invariant is proved along it.
-/

namespace Demiplane.Postgres.Capabilities

open Sql Errors

variable {ε : Type*}

/-! ### Sending -/

namespace Link

/-- The caller takes the result for a success. -/
def succeeds (l : Link ε) (stmt : Statement ε) (fate : Fate) : Bool :=
  (l.pqExec stmt fate).2.any fun r => (processResult r).toBool

theorem succeeds_iff (l : Link ε) (stmt : Statement ε) (fate : Fate) :
    l.succeeds stmt fate = true ↔ l.alive = true ∧
      ∃ accepts refusal, fate = .answered accepts refusal ∧
        (l.session.exec stmt accepts).2 = true := by
  unfold succeeds pqExec
  by_cases ha : l.alive
  · rw [if_pos ha]
    cases fate with
    | answered accepts refusal =>
        obtain ⟨error, herror⟩ := processResult_refusal refusal
        simp only [Fate.answered.injEq, ↓existsAndEq, and_true, ha, true_and]
        cases (l.session.exec stmt accepts).2 <;> simp [herror, Except.toBool]
    | unsent message => simp
    | lost reached message =>
        obtain ⟨error, herror⟩ := processResult_broken message
        simp [herror, Except.toBool]
  · simp [ha]

theorem pqExec_of_dead {l : Link ε} (ha : l.alive = false) (stmt : Statement ε) (fate : Fate) :
    l.pqExec stmt fate = (l, none) := by
  simp [pqExec, ha]

theorem alive_of_pqExec {l : Link ε} {stmt : Statement ε} {fate : Fate}
    (h : (l.pqExec stmt fate).1.alive = true) : l.alive = true := by
  by_contra ha
  rw [pqExec_of_dead (by simpa using ha)] at h
  exact ha h

/-- A connection that lives after another one has broken is as it was. -/
theorem update_broken {links : ℕ → Link ε} {j k : ℕ}
    (h : (Function.update links k (links k).broken j).alive = true) :
    Function.update links k (links k).broken j = links j := by
  by_cases hjk : j = k
  · subst hjk
    simp [broken] at h
  · exact Function.update_of_ne hjk _ _

/-- As long as the connection lives, no command opens or closes a block. -/
theorem pqExec_command_isSome {l : Link ε} {c : Command ε} {fate : Fate}
    (h : (l.pqExec (.command c) fate).1.alive = true) :
    (l.pqExec (.command c) fate).1.session.block.isSome = l.session.block.isSome := by
  have ha := alive_of_pqExec h
  unfold pqExec at h ⊢
  rw [if_pos ha] at h ⊢
  cases fate with
  | answered accepts refusal => exact Session.exec_command_isSome l.session c accepts
  | unsent message => rfl
  | lost reached message => cases h

end Link

namespace World

@[simp] theorem pqExec_none (w : World ε) (sender : Option Borrow) (stmt : Statement ε)
    (fate : Fate) : w.pqExec sender none stmt fate = (w, none) := rfl

section
variable (w : World ε) (sender : Option Borrow) (conn : Option ℕ) (stmt : Statement ε) (fate : Fate)

@[simp] theorem pqExec_lent : (w.pqExec sender conn stmt fate).1.lent = w.lent := by
  cases conn <;> rfl

@[simp] theorem pqExec_turns : (w.pqExec sender conn stmt fate).1.turns = w.turns := by
  cases conn <;> rfl

@[simp] theorem pqExec_poolAlive : (w.pqExec sender conn stmt fate).1.poolAlive = w.poolAlive := by
  cases conn <;> rfl

@[simp] theorem pqExec_objects : (w.pqExec sender conn stmt fate).1.objects = w.objects := by
  cases conn <;> rfl

@[simp] theorem pqExec_savepoints :
    (w.pqExec sender conn stmt fate).1.savepoints = w.savepoints := by
  cases conn <;> rfl

@[simp] theorem pqExec_bookings : (w.pqExec sender conn stmt fate).1.bookings = w.bookings := by
  cases conn <;> rfl

theorem pqExec_links (k : ℕ) :
    (w.pqExec sender conn stmt fate).1.links k =
      if conn = some k then ((w.links k).pqExec stmt fate).1 else w.links k := by
  cases conn with
  | none => rfl
  | some j =>
      by_cases hjk : j = k
      · subst hjk
        simp [pqExec]
      · simp [pqExec, hjk, Ne.symm hjk]

end

theorem pqExec_sent_none (w : World ε) (conn : Option ℕ) (stmt : Statement ε) (fate : Fate) :
    (w.pqExec none conn stmt fate).1.sent = w.sent := by
  cases conn <;> simp [pqExec]

/-- On a connection that is gone nothing is sent. -/
theorem pqExec_of_dead {w : World ε} {k : ℕ} (ha : (w.links k).alive = false)
    (sender : Option Borrow) (stmt : Statement ε) (fate : Fate) :
    (w.pqExec sender (some k) stmt fate).1 = w := by
  simp [pqExec, Link.pqExec_of_dead ha, ha]

theorem pqExec_sent {w : World ε} {b : Borrow} {k : ℕ} (ha : (w.links k).alive = true)
    (stmt : Statement ε) (fate : Fate) :
    (w.pqExec (some b) (some k) stmt fate).1.sent =
      w.sent ++ [⟨b, stmt, (w.links k).succeeds stmt fate⟩] := by
  simp [pqExec, ha, Link.succeeds]

/-- Whether a statement on this connection, or on none, is taken for a success. -/
def succeeds (w : World ε) (conn : Option ℕ) (stmt : Statement ε) (fate : Fate) : Bool :=
  conn.any fun k => (w.links k).succeeds stmt fate

theorem succeeds_iff (w : World ε) (conn : Option ℕ) (stmt : Statement ε) (fate : Fate) :
    w.succeeds conn stmt fate = true ↔
      ∃ k, conn = some k ∧ (w.links k).succeeds stmt fate = true := by
  cases conn <;> simp [succeeds]

theorem checkConnection_connStatus (w : World ε) (k : ℕ) :
    (checkConnection (w.connStatus (some k))).isSuccess = (w.links k).alive := by
  cases ha : (w.links k).alive <;> simp [connStatus, Link.status, ha, checkConnection,
    ErrorCode.isSuccess]

theorem execute_fst (w : World ε) (sender : Option Borrow) (conn : Option ℕ) (stmt : Statement ε)
    (fate : Fate) :
    (w.execute sender conn stmt fate).1 = (w.pqExec sender conn stmt fate).1 := by
  cases conn with
  | none => rfl
  | some k =>
      unfold execute
      simp only [checkConnection_connStatus]
      cases ha : (w.links k).alive with
      | false => exact (pqExec_of_dead ha sender stmt fate).symm
      | true =>
          simp only [if_true]
          split <;> simp_all

theorem execute_toBool (w : World ε) (sender : Option Borrow) (conn : Option ℕ)
    (stmt : Statement ε) (fate : Fate) :
    (w.execute sender conn stmt fate).2.toBool = w.succeeds conn stmt fate := by
  cases conn with
  | none => rfl
  | some k =>
      unfold execute
      simp only [checkConnection_connStatus]
      cases ha : (w.links k).alive with
      | false => simp [succeeds, Link.succeeds, Link.pqExec_of_dead ha, Except.toBool]
      | true =>
          have hresult : (w.pqExec sender (some k) stmt fate).2 =
              ((w.links k).pqExec stmt fate).2 := rfl
          simp only [if_true, succeeds, Option.any_some, Link.succeeds, ← hresult]
          rcases w.pqExec sender (some k) stmt fate with ⟨w', _ | result⟩
          · rfl
          · simp only [Option.any_some]
            cases processResult result <;> rfl

end World

/-! ### Control statements -/

/-- The actions that send a control statement, with the object they are called
on, the status they ask for, the statement, and the status it ends in. -/
inductive IsControl : Action ε → ℕ → TransactionStatus → Statement ε → TransactionStatus →
    Fate → Prop where
  | begin (i : ℕ) (fate : Fate) : IsControl (.begin i fate) i .idle .begin .active fate
  | commit (i : ℕ) (fate : Fate) : IsControl (.commit i fate) i .active .commit .committed fate
  | rollback (i : ℕ) (fate : Fate) :
      IsControl (.rollback i fate) i .active .rollback .rolledBack fate

namespace World

/-- A control statement of transaction `tx` in place `i`, and the status that
the transaction has then. -/
def control (w : World ε) (i : ℕ) (auto : Bool) (tx : Transaction) (stmt : Statement ε)
    (done : TransactionStatus) (fate : Fate) : World ε :=
  (w.pqExec tx.holder tx.conn stmt fate).1.put i (.transaction auto
    { tx with status := if w.succeeds tx.conn stmt fate then done else .failed })

@[simp] theorem objects_set_self (w : World ε) (i : ℕ) (o : Option Capability) :
    (w.set i o).objects i = o := by
  simp [set]

theorem objects_set_ne {w : World ε} {i j : ℕ} {o : Option Capability} (hji : j ≠ i) :
    (w.set i o).objects j = w.objects j := by
  simp [set, hji]

/-- What holds of all objects holds after one has changed if it holds of that one. -/
theorem forall_set {P : Capability → Prop} {w : World ε} {i : ℕ} {o : Option Capability}
    (h : ∀ j d, w.objects j = some d → P d) (ho : ∀ d, o = some d → P d) (j : ℕ)
    (d : Capability) (hj : (w.set i o).objects j = some d) : P d := by
  by_cases hji : j = i
  · subst hji
    exact ho d (by simpa using hj)
  · exact h j d (by rwa [objects_set_ne hji] at hj)

theorem put_self {w : World ε} {i : ℕ} {c : Capability} (h : w.objects i = some c) :
    w.put i c = w := by
  simp [put, set, ← h]

/-- What a member function that sends a control statement returns: an error
with nothing sent, or what has become of the statement. -/
inductive Controls (w : World ε) (tx : Transaction) (asked : TransactionStatus)
    (stmt : Statement ε) (done : TransactionStatus) (fate : Fate) :
    World ε × Transaction × Except Failure Unit → Prop where
  | declined (f : Failure) : Controls w tx asked stmt done fate (w, tx, .error f)
  | sent (r : Except Failure Unit) (hs : tx.status = asked)
      (hr : r.toBool = w.succeeds tx.conn stmt fate) :
      Controls w tx asked stmt done fate ((w.pqExec tx.holder tx.conn stmt fate).1,
        { tx with status := if w.succeeds tx.conn stmt fate then done else .failed }, r)

theorem toBool_mapError {α β γ : Type*} (f : α → β) (r : Except α γ) :
    (r.mapError f).toBool = r.toBool := by
  cases r <;> rfl

theorem begin_controls (w : World ε) (tx : Transaction) (fate : Fate) :
    Controls w tx .idle .begin .active fate (w.begin tx fate) := by
  unfold begin
  by_cases hs : tx.status = .idle
  · rw [if_pos hs]
    cases tx.options.toBeginSql with
    | error what => exact .declined _
    | ok sql =>
        simp only [executeControl, execute_fst, execute_toBool]
        exact .sent _ hs (by rw [toBool_mapError, execute_toBool])
  · rw [if_neg hs]
    exact .declined _

theorem finish_controls (w : World ε) (stmt : Statement ε) (done : TransactionStatus)
    (tx : Transaction) (fate : Fate) :
    Controls w tx .active stmt done fate (w.finish stmt done tx fate) := by
  unfold finish
  by_cases hs : tx.status = .active
  · rw [if_pos hs]
    simp only [executeControl, execute_fst, execute_toBool]
    exact .sent _ hs (by rw [toBool_mapError, execute_toBool])
  · rw [if_neg hs]
    exact .declined _

theorem finish_of_active {w : World ε} {tx : Transaction} (hs : tx.status = .active) (i : ℕ)
    (auto : Bool) (stmt : Statement ε) (done : TransactionStatus) (fate : Fate) :
    (w.finish stmt done tx fate).1.put i (.transaction auto (w.finish stmt done tx fate).2.1) =
      w.control i auto tx stmt done fate := by
  unfold finish
  rw [if_pos hs]
  simp only [executeControl, execute_fst, execute_toBool]
  rfl

/-! ### Savepoints -/

theorem savepointRollback_fst (w : World ε) (sp : Savepoint) (fate : Fate) :
    (w.savepointRollback sp fate).1 =
      (w.pqExec none (if sp.active then sp.conn else none) (.command (.rollbackTo sp.name))
        fate).1 := by
  cases ha : sp.active <;> simp [savepointRollback, ha, execute_fst]

theorem savepointRelease_fst (w : World ε) (sp : Savepoint) (fate : Fate) :
    (w.savepointRelease sp fate).1 =
      (w.pqExec none (if sp.active then sp.conn else none) (.command (.release sp.name))
        fate).1 := by
  cases ha : sp.active <;> simp [savepointRelease, ha, execute_fst]

theorem savepointRelease_snd (w : World ε) (sp : Savepoint) (fate : Fate) :
    (w.savepointRelease sp fate).2.1 =
      { sp with
        active := sp.active && !w.succeeds sp.conn (.command (.release sp.name)) fate } := by
  obtain ⟨conn, name, active, origin⟩ := sp
  cases active <;> simp [savepointRelease, execute_toBool]

/-- `Transaction::savepoint` sends SAVEPOINT or nothing; the object it returns
is one of the transaction's connection and borrow. -/
theorem savepoint_cases (w : World ε) (tx : Transaction) (name : String) (fate : Fate) :
    (∃ f, w.savepoint tx name fate = (w, .error f)) ∨
      tx.status = .active ∧ (w.savepoint tx name fate).1 =
          (w.pqExec none tx.conn (.command (.savepoint name)) fate).1 ∧
        ∀ sp, (w.savepoint tx name fate).2 = .ok sp →
          sp = ⟨tx.conn, name, true, tx.holder⟩ ∧
            w.succeeds tx.conn (.command (.savepoint name)) fate = true := by
  unfold savepoint
  by_cases hs : tx.status = .active
  · by_cases hn : isValidIdentifier name = true
    · rw [if_pos hs, if_pos hn]
      refine .inr ⟨hs, execute_fst w none tx.conn _ fate, fun sp hsp => ?_⟩
      rw [← execute_toBool w none]
      cases hr : (w.execute none tx.conn (.command (.savepoint name)) fate).2 with
      | error e => simp [hr, Except.map, Except.mapError] at hsp
      | ok u =>
          simp only [hr, Except.map, Except.mapError, Except.ok.injEq] at hsp
          exact ⟨hsp.symm, rfl⟩
    · rw [if_pos hs, if_neg hn]
      exact .inl ⟨_, rfl⟩
  · rw [if_neg hs]
    exact .inl ⟨_, rfl⟩

theorem savepoint_of_succeeds {w : World ε} {tx : Transaction} {name : String} {fate : Fate}
    (hs : tx.status = .active) (hn : isValidIdentifier name = true)
    (hok : w.succeeds tx.conn (.command (.savepoint name)) fate = true) :
    w.savepoint tx name fate =
      ((w.pqExec none tx.conn (.command (.savepoint name)) fate).1,
        .ok ⟨tx.conn, name, true, tx.holder⟩) := by
  unfold savepoint
  rw [if_pos hs, if_pos hn, ← execute_fst]
  rw [← execute_toBool w none] at hok
  cases hr : (w.execute none tx.conn (.command (.savepoint name)) fate).2 with
  | error e => simp [hr, Except.toBool] at hok
  | ok u => simp [hr, Except.map, Except.mapError]

/-! ### Destructors -/

/-- The ROLLBACK of `~Transaction`. -/
def safetyNet (w : World ε) (c : Capability) (fate : Fate) : World ε :=
  match c with
  | .executor _ _ => w
  | .transaction _ tx =>
      if (w.lock tx.holder).isSome ∧ tx.status = .active then
        (w.pqExec tx.holder tx.conn .rollback fate).1
      else w

theorem destroy_eq (w : World ε) (c : Capability) (fate : Fate) :
    w.destroy c fate = (w.safetyNet c fate).letGo c.handle.holder := by
  cases c with
  | executor async h => rfl
  | transaction auto tx =>
      simp only [destroy, destroyTransaction, safetyNet, letGo, Capability.handle]
      cases hl : w.lock tx.holder with
      | none => simp [hl]
      | some b =>
          have hlock (sender : Option Borrow) (conn : Option ℕ) :
              (w.pqExec sender conn .rollback fate).1.lock tx.holder = some b := by
            rw [← hl]
            simp [lock]
          by_cases hs : tx.status = .active <;> simp [hs, hl, hlock]

@[simp] theorem letGo_objects (w : World ε) (holder : Option Borrow) :
    (w.letGo holder).objects = w.objects := by
  unfold letGo
  cases w.lock holder <;> rfl

@[simp] theorem letGo_links (w : World ε) (holder : Option Borrow) :
    (w.letGo holder).links = w.links := by
  unfold letGo
  cases w.lock holder <;> rfl

@[simp] theorem letGo_savepoints (w : World ε) (holder : Option Borrow) :
    (w.letGo holder).savepoints = w.savepoints := by
  unfold letGo
  cases w.lock holder <;> rfl

@[simp] theorem letGo_poolAlive (w : World ε) (holder : Option Borrow) :
    (w.letGo holder).poolAlive = w.poolAlive := by
  unfold letGo
  cases w.lock holder <;> rfl

/-- Either nothing is sent for a destructor, as the object is not an active
transaction or has nothing to lock, or a ROLLBACK is. -/
theorem safetyNet_cases (w : World ε) (c : Capability) (fate : Fate) :
    (w.safetyNet c fate = w ∧ (c.isActive = true → w.lock c.handle.holder = none)) ∨
      ∃ auto tx, c = .transaction auto tx ∧ tx.status = .active ∧
        w.safetyNet c fate = (w.pqExec tx.holder tx.conn .rollback fate).1 := by
  cases c with
  | executor async h => exact .inl ⟨rfl, fun ha => by cases ha⟩
  | transaction auto tx =>
      simp only [safetyNet]
      split_ifs with hs
      · exact .inr ⟨auto, tx, rfl, hs.2, rfl⟩
      · refine .inl ⟨rfl, fun ha => ?_⟩
        have hactive : tx.status = .active := by simpa [Capability.isActive] using ha
        simpa [hactive, Capability.handle] using hs

@[simp] theorem safetyNet_objects (w : World ε) (c : Capability) (fate : Fate) :
    (w.safetyNet c fate).objects = w.objects := by
  rcases safetyNet_cases w c fate with ⟨h, -⟩ | ⟨auto, tx, -, -, h⟩ <;> simp [h]

@[simp] theorem safetyNet_poolAlive (w : World ε) (c : Capability) (fate : Fate) :
    (w.safetyNet c fate).poolAlive = w.poolAlive := by
  rcases safetyNet_cases w c fate with ⟨h, -⟩ | ⟨auto, tx, -, -, h⟩ <;> simp [h]

@[simp] theorem safetyNet_bookings (w : World ε) (c : Capability) (fate : Fate) :
    (w.safetyNet c fate).bookings = w.bookings := by
  rcases safetyNet_cases w c fate with ⟨h, -⟩ | ⟨auto, tx, -, -, h⟩ <;> simp [h]

/-- What was in the second place does not matter once it is written over. -/
theorem put_put_put {w : World ε} {i j : ℕ} (hij : i ≠ j) (c d e : Capability) :
    ((w.put j d).put i c).put j e = (w.put i c).put j e := by
  unfold put set
  simp only [Function.update_comm hij, Function.update_idem]

theorem letGo_put (w : World ε) (i : ℕ) (c : Capability) (holder : Option Borrow) :
    (w.put i c).letGo holder = (w.letGo holder).put i c := by
  have hlock : (w.put i c).lock holder = w.lock holder := rfl
  unfold letGo
  rw [hlock]
  cases w.lock holder <;> rfl

/-- Destroying an object and clearing its place does not depend on what the
place says. -/
theorem destroy_put_drop (w : World ε) (i : ℕ) (c d : Capability) (fate : Fate) :
    ((w.put i c).destroy d fate).drop i = (w.destroy d fate).drop i := by
  have hpq (sender : Option Borrow) (conn : Option ℕ) (stmt : Statement ε) :
      ((w.put i c).pqExec sender conn stmt fate).1 =
        (w.pqExec sender conn stmt fate).1.put i c := by
    cases conn <;> rfl
  have hnet : (w.put i c).safetyNet d fate = (w.safetyNet d fate).put i c := by
    cases d with
    | executor async h => rfl
    | transaction auto tx =>
        have hl : (w.put i c).lock tx.holder = w.lock tx.holder := rfl
        simp only [safetyNet, hpq, hl]
        split_ifs <;> rfl
  rw [destroy_eq, destroy_eq, hnet, letGo_put]
  simp [put, drop, set]

/-- An object that is destroyed returns its holder, an active transaction after
a ROLLBACK like the one of `rollback`. -/
theorem destroy_drop_cases (w : World ε) (i : ℕ) (c : Capability) (fate : Fate) :
    ((w.destroy c fate).drop i = (w.letGo c.handle.holder).drop i ∧
        (c.isActive = true → w.lock c.handle.holder = none)) ∨
      ∃ auto tx, c = .transaction auto tx ∧ tx.status = .active ∧
        (w.destroy c fate).drop i =
          ((w.control i auto tx .rollback .rolledBack fate).letGo c.handle.holder).drop i := by
  rw [destroy_eq]
  rcases safetyNet_cases w c fate with ⟨hnet, hlock⟩ | ⟨auto, tx, rfl, hs, hnet⟩
  · exact .inl ⟨by rw [hnet], hlock⟩
  · refine .inr ⟨auto, tx, rfl, hs, ?_⟩
    rw [hnet, control, letGo_put]
    simp [put, drop, set]

end World

/-! ### Inversion -/

/-- An active transaction sets the savepoint on a connection that is alive. -/
def World.Sets (w : World ε) (sp : Savepoint) : Prop :=
  ∃ i auto tx k, w.objects i = some (.transaction auto tx) ∧ tx.status = .active ∧
    tx.conn = some k ∧ (w.links k).alive = true ∧ sp.conn = tx.conn ∧ sp.origin = tx.holder

/-- Every active savepoint of `sps` is one of the world, perhaps in another
place, or one that an active transaction sets. -/
def Derived (w : World ε) (sps : ℕ → Option Savepoint) : Prop :=
  ∀ t sp, sps t = some sp → sp.active = true → (∃ s, w.savepoints s = some sp) ∨ w.Sets sp

theorem Derived.same (w : World ε) : Derived w w.savepoints :=
  fun t _ hsp _ => .inl ⟨t, hsp⟩

theorem Derived.update {w : World ε} {sps : ℕ → Option Savepoint} (h : Derived w sps) (s : ℕ)
    {sp : Option Savepoint}
    (hsp : ∀ x, sp = some x → x.active = true → (∃ s, w.savepoints s = some x) ∨ w.Sets x) :
    Derived w (Function.update sps s sp) := by
  intro t x hx hactive
  by_cases hts : t = s
  · subst hts
    rw [Function.update_self] at hx
    exact hsp x hx hactive
  · rw [Function.update_of_ne hts] at hx
    exact h t x hx hactive

theorem Derived.moved {w : World ε} {s : ℕ} {sp : Savepoint} (t : ℕ)
    (hs : w.savepoints s = some sp) :
    Derived w (Function.update (Function.update w.savepoints s (some sp.movedFrom)) t
      (some sp)) := by
  refine ((same w).update s fun x hx hactive => ?_).update t fun x hx _ => ?_
  · obtain rfl := Option.some.inj hx
    cases hactive
  · obtain rfl := Option.some.inj hx
    exact .inl ⟨s, hs⟩

/-- An object that has just been made for a borrow. -/
inductive Fresh (b : Borrow) : Owner → Capability → Prop where
  | executor (async : Bool) : Fresh b .executor (.executor async ⟨some b, some b.conn⟩)
  | transaction (auto : Bool) (options : TransactionOptions) :
      Fresh b .transaction (.transaction auto ⟨⟨some b, some b.conn⟩, options, .idle⟩)

namespace World

/-- Connection `k` is lent to an object in place `i`. -/
def hand (w : World ε) (i k : ℕ) (owner : Owner) (c : Capability) : World ε :=
  (w.acquire k owner).put i c

/-- The borrow that starts when connection `k` is lent. -/
def next (w : World ε) (k : ℕ) : Borrow := ⟨k, w.turns k⟩

/-- The transaction of `begin_auto_transaction` before BEGIN, the world with it,
and the world after BEGIN. -/
def idleTx (w : World ε) (k : ℕ) (options : TransactionOptions) : Transaction :=
  ⟨⟨some (w.next k), some k⟩, options, .idle⟩

def unbegun (w : World ε) (i k : ℕ) (options : TransactionOptions) : World ε :=
  w.hand i k .transaction (.transaction true (w.idleTx k options))

def begun (w : World ε) (i k : ℕ) (options : TransactionOptions) (fate : Fate) : World ε :=
  (w.unbegun i k options).control i true (w.idleTx k options) .begin .active fate

end World

/-- Connection `k` can be lent to an object in place `i`. -/
structure Lendable (w : World ε) (i k : ℕ) : Prop where
  empty : w.objects i = none
  alive : w.poolAlive = true
  unlent : w.lent k = false

/-- The ways in which an action comes out. Those of `begin_auto_transaction`
are put together from the others. -/
inductive Step (w : World ε) : Action ε → World ε → Prop where
  | same (a : Action ε) : Step w a w
  | command (a : Action ε) {sps : ℕ → Option Savepoint} (conn : Option ℕ) (c : Command ε)
      (fate : Fate) (h : Derived w sps) :
      Step w a { (w.pqExec none conn (.command c) fate).1 with savepoints := sps }
  | control {a : Action ε} {i : ℕ} {asked done : TransactionStatus} {stmt : Statement ε}
      {fate : Fate} {auto : Bool} {tx : Transaction} (h : IsControl a i asked stmt done fate)
      (hi : w.objects i = some (.transaction auto tx)) (hs : tx.status = asked) :
      Step w a (w.control i auto tx stmt done fate)
  | handed {i k : ℕ} {entry : Entry} {owner : Owner} {c : Capability} (h : Lendable w i k)
      (hc : Fresh (w.next k) owner c) :
      Step w (.enter i entry (some k)) (w.hand i k owner c)
  | thrown {i k : ℕ} {setup : Setup} {what : String} (h : Lendable w i k)
      (hs : setupConnection (w.links k).status setup = .error what) :
      Step w (.enter i (.withAsync setup) (some k)) (w.acquire k .nobody)
  | autoDeclined {i k : ℕ} {options : TransactionOptions} {fate : Fate} (h : Lendable w i k) :
      Step w (.enter i (.beginAutoTransaction options fate) (some k))
        (((w.unbegun i k options).destroy (.transaction true (w.idleTx k options)) fate).drop i)
  | autoBegun {i k : ℕ} {options : TransactionOptions} {fate : Fate} (h : Lendable w i k) :
      Step w (.enter i (.beginAutoTransaction options fate) (some k)) (w.begun i k options fate)
  | autoFailed {i k : ℕ} {options : TransactionOptions} {fate : Fate} {tx : Transaction}
      (h : Lendable w i k)
      (htx : (w.begun i k options fate).objects i = some (.transaction true tx))
      (hs : tx.status = .failed) :
      Step w (.enter i (.beginAutoTransaction options fate) (some k))
        (((w.begun i k options fate).destroy (.transaction true tx) fate).drop i)
  | moveConstructed {i j : ℕ} {c : Capability} (hi : w.objects i = some c)
      (hj : w.objects j = none) :
      Step w (.moveConstruct i j) ((w.put i c.movedFrom).put j c)
  | moveAssigned {i j : ℕ} {c d : Capability} (hi : w.objects i = some c)
      (hj : w.objects j = some d) (hclass : c.sameClass d = true) (hne : i ≠ j) :
      Step w (.moveAssign i j) (((w.letGo d.handle.holder).put i c.movedFrom).put j c)
  | destroyed {i : ℕ} {c : Capability} {fate : Fate} (hi : w.objects i = some c) :
      Step w (.destroy i fate) ((w.destroy c fate).drop i)
  | broke (k : ℕ) :
      Step w (.breakLink k) { w with links := Function.update w.links k (w.links k).broken }
  | poolGone :
      Step w .destroyPool { w with poolAlive := false, links := fun k => (w.links k).broken }

namespace Step

variable {w : World ε}

/-- A call that returns an error with nothing sent leaves its object as it is. -/
theorem of_controls {a : Action ε} {i : ℕ} {asked done : TransactionStatus} {stmt : Statement ε}
    {fate : Fate} {auto : Bool} {tx : Transaction}
    {res : World ε × Transaction × Except Failure Unit} (h : IsControl a i asked stmt done fate)
    (hi : w.objects i = some (.transaction auto tx))
    (hres : World.Controls w tx asked stmt done fate res) :
    Step w a (res.1.put i (.transaction auto res.2.1)) := by
  cases hres with
  | declined f =>
      rw [World.put_self hi]
      exact .same a
  | sent r hs hr => exact .control h hi hs

theorem of_enter {i k : ℕ} (entry : Entry) (h : Lendable w i k) :
    Step w (.enter i entry (some k)) (w.enter i k entry) := by
  cases entry with
  | withSync => exact .handed h (.executor false)
  | withAsync setup =>
      simp only [World.enter]
      cases hs : setupConnection (w.links k).status setup with
      | ok fd => exact .handed h (.executor true)
      | error what => exact .thrown h hs
  | beginTransaction options => exact .handed h (.transaction false options)
  | beginAutoTransaction options fate =>
      have hres := World.begin_controls (w.unbegun i k options) (w.idleTx k options) fate
      have henter : w.enter i k (.beginAutoTransaction options fate) =
          let res := (w.unbegun i k options).begin (w.idleTx k options) fate
          if res.2.2.toBool then res.1.put i (.transaction true res.2.1)
          else (res.1.destroy (.transaction true res.2.1) fate).drop i := rfl
      rw [henter]
      generalize (w.unbegun i k options).begin (w.idleTx k options) fate = res at hres ⊢
      cases hres with
      | declined f => exact .autoDeclined h
      | sent r hs hr =>
          cases hok : r.toBool with
          | true =>
              simp only [hok, if_true]
              exact .autoBegun h
          | false =>
              have hfailed := hr.symm.trans hok
              have hstatus : (w.begun i k options fate).objects i =
                  some (.transaction true { w.idleTx k options with status := .failed }) := by
                simp [World.begun, World.control, World.put, World.set, hfailed]
              have hstep := Step.autoFailed h hstatus rfl
              unfold World.begun World.control at hstep
              rw [World.destroy_put_drop] at hstep
              simpa only [hok, hfailed, Bool.false_eq_true, if_false] using hstep

/-- A command that leaves the savepoints where they are. -/
theorem of_command (a : Action ε) (conn : Option ℕ) (c : Command ε) (fate : Fate) :
    Step w a (w.pqExec none conn (.command c) fate).1 := by
  have hstep := Step.command a conn c fate (Derived.same w)
  rwa [show { (w.pqExec none conn (.command c) fate).1 with savepoints := w.savepoints } =
    (w.pqExec none conn (.command c) fate).1 by cases conn <;> rfl] at hstep

theorem of_withSync (a : Action ε) (tx : Transaction) (effect : ε) (fate : Fate) :
    Step w a (w.withSync tx effect fate).1 := by
  unfold World.withSync
  split_ifs
  · simp only [World.execute_fst]
    exact of_command a tx.conn (.query effect) fate
  · exact .same a

theorem of_savepoint {a : Action ε} {i s : ℕ} {auto : Bool} {tx : Transaction} {name : String}
    {fate : Fate} {w' : World ε} (hi : w.objects i = some (.transaction auto tx))
    (h : (match w.savepoint tx name fate with
      | (w', .ok sp) => some (w'.putSavepoint s sp)
      | (w', .error _) => some w') = some w') : Step w a w' := by
  rcases World.savepoint_cases w tx name fate with ⟨f, hf⟩ | ⟨hs, hfst, hsp⟩
  · rw [hf] at h
    obtain rfl := Option.some.inj h
    exact .same a
  · rcases hres : w.savepoint tx name fate with ⟨u, e | sp⟩
    · rw [hres] at h hfst
      obtain rfl := Option.some.inj h
      obtain rfl : u = _ := hfst
      exact of_command a tx.conn (.savepoint name) fate
    · rw [hres] at h hfst hsp
      obtain ⟨rfl, hok⟩ := hsp sp rfl
      obtain ⟨k, hk, hlink⟩ := (World.succeeds_iff ..).mp hok
      obtain rfl := Option.some.inj h
      obtain rfl : u = _ := hfst
      rw [World.putSavepoint, World.pqExec_savepoints]
      refine .command a tx.conn _ fate ((Derived.same w).update s fun x hx _ => ?_)
      obtain rfl := Option.some.inj hx
      exact .inr ⟨i, auto, tx, k, hi, hs, hk, ((Link.succeeds_iff ..).mp hlink).1, rfl, rfl⟩

end Step

/-- Every step is one of these. -/
theorem step_cases {w w' : World ε} {a : Action ε} (h : step w a = some w') : Step w a w' := by
  cases a with
  | enter i entry acquired =>
      simp only [step] at h
      split at h
      · cases h
      · obtain rfl := Option.some.inj h
        exact .same _
      · rename_i k hi
        split_ifs at h with hk
        obtain rfl := Option.some.inj h
        exact .of_enter entry ⟨hi, hk.1, hk.2⟩
  | begin i fate =>
      simp only [step] at h
      split at h
      · rename_i tx hi
        obtain rfl := Option.some.inj h
        exact .of_controls (.begin i fate) hi (w.begin_controls tx fate)
      · cases h
  | commit i fate =>
      simp only [step] at h
      split at h
      · rename_i auto tx hi
        obtain rfl := Option.some.inj h
        exact .of_controls (.commit i fate) hi (w.finish_controls .commit .committed tx fate)
      · cases h
  | rollback i fate =>
      simp only [step] at h
      split at h
      · rename_i tx hi
        obtain rfl := Option.some.inj h
        exact .of_controls (.rollback i fate) hi (w.finish_controls .rollback .rolledBack tx fate)
      · cases h
  | execute i effect fate =>
      simp only [step] at h
      split at h
      · obtain rfl := Option.some.inj h
        exact .of_withSync _ _ effect fate
      · cases h
  | elsewhere k effect fate =>
      obtain rfl := Option.some.inj h
      rw [World.execute_fst]
      exact .of_command _ (some k) (.query effect) fate
  | moveConstruct i j =>
      simp only [step] at h
      split at h
      · rename_i c hi hj
        obtain rfl := Option.some.inj h
        exact .moveConstructed hi hj
      · cases h
  | moveAssign i j =>
      simp only [step] at h
      split at h
      · rename_i c d hi hj
        split_ifs at h with hclass hij
        · obtain rfl := Option.some.inj h
          exact .same _
        · obtain rfl := Option.some.inj h
          exact .moveAssigned hi hj hclass hij
      · cases h
  | destroy i fate =>
      simp only [step] at h
      split at h
      · rename_i c hi
        obtain rfl := Option.some.inj h
        exact .destroyed hi
      · cases h
  | savepoint i s name fate =>
      simp only [step] at h
      split at h
      · rename_i auto tx hi hs
        exact .of_savepoint hi h
      · cases h
  | savepointRollback s fate =>
      simp only [step] at h
      split at h
      · obtain rfl := Option.some.inj h
        rw [World.savepointRollback_fst]
        exact .of_command _ _ _ fate
      · cases h
  | savepointRelease s fate =>
      simp only [step] at h
      split at h
      · rename_i sp hs
        obtain rfl := Option.some.inj h
        simp only [World.putSavepoint, World.savepointRelease_fst, World.pqExec_savepoints,
          World.savepointRelease_snd]
        refine .command _ _ _ fate ((Derived.same w).update s fun x hx hactive => ?_)
        obtain rfl := Option.some.inj hx
        dsimp only at hactive
        have hsp : sp.active = true := (Bool.and_eq_true_iff.mp hactive).1
        exact .inl ⟨s, by rw [hs, hactive, ← hsp]⟩
      · cases h
  | savepointMoveConstruct s t =>
      simp only [step] at h
      split at h
      · rename_i sp hs ht
        obtain rfl := Option.some.inj h
        exact .command _ none (.savepoint "") (.unsent "") (.moved t hs)
      · cases h
  | savepointMoveAssign s t fate =>
      simp only [step] at h
      split at h
      · rename_i sp old hs ht
        split_ifs at h with hst
        · obtain rfl := Option.some.inj h
          exact .same _
        · obtain rfl := Option.some.inj h
          simp only [World.putSavepoint, World.savepointRelease_fst, World.pqExec_savepoints]
          exact .command _ _ _ fate (.moved t hs)
      · cases h
  | savepointDestroy s fate =>
      simp only [step] at h
      split at h
      · rename_i sp hs
        obtain rfl := Option.some.inj h
        simp only [World.dropSavepoint, World.savepointRelease_fst, World.pqExec_savepoints]
        exact .command _ _ _ fate ((Derived.same w).update s fun x hx _ => by cases hx)
      · cases h
  | breakLink k =>
      obtain rfl := Option.some.inj h
      exact .broke k
  | destroyPool =>
      obtain rfl := Option.some.inj h
      exact .poolGone

end Demiplane.Postgres.Capabilities

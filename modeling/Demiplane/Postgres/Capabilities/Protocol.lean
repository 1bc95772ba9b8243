import Demiplane.Postgres.Capabilities.Ownership

/-!
The control statements of a borrow. The status of a transaction says which of
them have been sent, and as status and holder move together it is enough to
look at the one object that has the holder.
-/

namespace Demiplane.Postgres.Capabilities

open Custody Errors Sql Transition World

variable {ε : Type*}

/-- One BEGIN and, if it has succeeded, one COMMIT or ROLLBACK, or a part of that
from the start. -/
inductive Protocol : List (Statement ε × Bool) → Prop where
  | unsent : Protocol []
  | begun (ok : Bool) : Protocol [(.begin, ok)]
  | finished {stmt : Statement ε} (h : stmt = .commit ∨ stmt = .rollback) (ok : Bool) :
      Protocol [(.begin, true), (stmt, ok)]

/-- What has been sent for a transaction of a given status. -/
def Matches : TransactionStatus → List (Statement ε × Bool) → Prop
  | .idle, l => l = []
  | .active, l => l = [(.begin, true)]
  | .committed, l => l = [(.begin, true), (.commit, true)]
  | .rolledBack, l => l = [(.begin, true), (.rollback, true)]
  | .failed, l => Protocol l

/-- The statement that may be sent in a status, and the status it leads to. -/
inductive Follows : TransactionStatus → Statement ε → TransactionStatus → Prop where
  | begin : Follows .idle .begin .active
  | commit : Follows .active .commit .committed
  | rollback : Follows .active .rollback .rolledBack

theorem IsControl.follows {a : Action ε} {i : ℕ} {asked done : TransactionStatus}
    {stmt : Statement ε} {fate : Fate} (h : IsControl a i asked stmt done fate) :
    Follows asked stmt done := by
  cases h with
  | begin => exact .begin
  | commit => exact .commit
  | rollback => exact .rollback

theorem Matches.protocol {status : TransactionStatus} {l : List (Statement ε × Bool)}
    (h : Matches status l) : Protocol l := by
  cases status with
  | idle => exact h ▸ .unsent
  | active => exact h ▸ .begun true
  | committed => exact h ▸ .finished (.inl rfl) true
  | rolledBack => exact h ▸ .finished (.inr rfl) true
  | failed => exact h

theorem Matches.snoc {asked done : TransactionStatus} {stmt : Statement ε}
    {l : List (Statement ε × Bool)} (h : Matches asked l) (hf : Follows asked stmt done)
    (ok : Bool) : Matches (if ok then done else .failed) (l ++ [(stmt, ok)]) := by
  cases hf with
  | begin =>
      obtain rfl : l = [] := h
      cases ok
      · exact Protocol.begun false
      · rfl
  | commit =>
      obtain rfl : l = _ := h
      cases ok
      · exact Protocol.finished (.inl rfl) false
      · rfl
  | rollback =>
      obtain rfl : l = _ := h
      cases ok
      · exact Protocol.finished (.inr rfl) false
      · rfl

namespace World

/-- The control statements for a borrow, each with whether it has succeeded. -/
def controls (w : World ε) (b : Borrow) : List (Statement ε × Bool) :=
  (w.sent.filter fun s => s.borrow = b).map fun s => (s.stmt, s.ok)

/-- What the holder of an object has been lent for, and what has been sent for it. -/
def Suits (w : World ε) (c : Capability) : Prop :=
  ∀ b, c.handle.holder = some b →
    match c with
    | .executor _ _ => w.Acquired b .executor
    | .transaction _ tx => Matches tx.status (w.controls b)

theorem controls_pqExec {w : World ε} {b : Borrow} {k : ℕ} (ha : (w.links k).alive = true)
    (stmt : Statement ε) (fate : Fate) (b' : Borrow) :
    (w.pqExec (some b) (some k) stmt fate).1.controls b' =
      w.controls b' ++ if b = b' then [(stmt, (w.links k).succeeds stmt fate)] else [] := by
  unfold controls
  rw [pqExec_sent ha]
  by_cases hbb : b = b' <;> simp [hbb]

theorem suits_of_empty {w : World ε} {c : Capability} (h : c.handle = .empty) : w.Suits c := by
  intro b hb
  rw [h] at hb
  cases hb

/-- Only the control statements of its own borrow matter to an object. -/
theorem Suits.congr {w w' : World ε} {c : Capability} (h : w.Suits c)
    (hc : ∀ b, c.handle.holder = some b → w'.controls b = w.controls b)
    (ha : ∀ b owner, w.Acquired b owner → w'.Acquired b owner) : w'.Suits c := by
  intro b hb
  cases c with
  | executor async handle => exact ha b .executor (h b hb)
  | transaction auto tx =>
      have hm : Matches tx.status (w.controls b) := h b hb
      rwa [← hc b hb] at hm

end World

structure Orderly (w : World ε) : Prop where
  suits : ∀ i c, w.objects i = some c → w.Suits c
  protocol : ∀ b, Protocol (w.controls b)
  fresh : ∀ b, (∀ owner, ¬ w.Acquired b owner) → w.controls b = []

namespace Orderly

variable {w w' : World ε} {i j k : ℕ} {c d : Capability}

theorem start : Orderly (Capabilities.start : World ε) where
  suits i c h := by cases h
  protocol _ := .unsent
  fresh _ _ := rfl

/-- No control statement is sent, and every object suits what has been sent. -/
theorem frame (h : Orderly w) (hsent : w'.sent = w.sent)
    (hacquired : ∀ b owner, w.Acquired b owner → w'.Acquired b owner)
    (hobjects : ∀ i c, w'.objects i = some c → w.Suits c ∨ w'.Suits c) : Orderly w' := by
  have hc (b : Borrow) : w'.controls b = w.controls b := by
    unfold controls
    rw [hsent]
  refine ⟨fun i c hi => ?_, fun b => hc b ▸ h.protocol b, fun b hb => ?_⟩
  · rcases hobjects i c hi with hsuits | hsuits
    · exact hsuits.congr (fun b _ => hc b) hacquired
    · exact hsuits
  · rw [hc]
    exact h.fresh b fun owner howner => hb owner (hacquired b owner howner)

theorem hand (hs : Sound w) (h : Orderly w) {owner : Owner} (hc : Fresh (w.next k) owner c) :
    Orderly (w.hand i k owner c) := by
  have hmono (b : Borrow) (o : Owner) (hb : w.Acquired b o) :
      (w.hand i k owner c).Acquired b o :=
    (acquired_acquire w k owner o b).mpr (.inl hb)
  have hempty : w.controls (w.next k) = [] := h.fresh _ (hs.not_acquired_next k)
  refine h.frame rfl hmono fun j d hj => ?_
  by_cases hji : j = i
  · subst hji
    obtain rfl : c = d := by simpa [World.hand, World.put] using hj
    refine .inr fun b hb => ?_
    rw [hc.handle] at hb
    obtain rfl := Option.some.inj hb
    cases hc with
    | executor async => exact (acquired_acquire w k .executor _ _).mpr (.inr ⟨rfl, rfl⟩)
    | transaction auto options => exact hempty
  · rw [World.hand, World.put, objects_set_ne hji] at hj
    exact .inl (h.suits j d hj)

theorem control (hs : Sound w) (h : Orderly w) {auto : Bool} {tx : Transaction}
    (hi : w.objects i = some (.transaction auto tx)) {stmt : Statement ε}
    {done : TransactionStatus} (hf : Follows tx.status stmt done) (fate : Fate) :
    Orderly (w.control i auto tx stmt done fate) := by
  obtain ⟨b, hb⟩ : ∃ b, tx.toHandle = ⟨some b, some b.conn⟩ := by
    rcases hs.wired hi with hb | ⟨-, hfailed⟩
    · exact hb
    · rw [hfailed] at hf
      cases hf
  have hholder : tx.holder = some b := congrArg Handle.holder hb
  have hconn : tx.conn = some b.conn := congrArg Handle.conn hb
  have hmatch : Matches tx.status (w.controls b) := h.suits i _ hi b hholder
  cases ha : (w.links b.conn).alive with
  | false =>
      -- nothing is sent, and the transaction has failed
      have hfail : w.succeeds tx.conn stmt fate = false := by
        simp [hconn, World.succeeds, Link.succeeds, Link.pqExec_of_dead ha]
      rw [World.control, hconn, pqExec_of_dead ha, ← hconn, hfail]
      refine h.frame rfl (fun _ _ => id) (forall_set (fun j d hj => .inl (h.suits j d hj)) ?_)
      rintro d hd
      obtain rfl := Option.some.inj hd
      refine .inl fun b' hb' => ?_
      obtain rfl : b = b' := Option.some.inj (hholder.symm.trans hb')
      exact hmatch.protocol
  | true =>
      have hp := hs.poolAlive_of_alive ha
      have hok : w.succeeds tx.conn stmt fate = (w.links b.conn).succeeds stmt fate := by
        simp [hconn, World.succeeds]
      have hc (b' : Borrow) : (w.control i auto tx stmt done fate).controls b' =
          w.controls b' ++ if b = b' then [(stmt, w.succeeds tx.conn stmt fate)] else [] := by
        rw [hok, ← controls_pqExec ha, World.control, hholder, hconn]
        rfl
      have hsnoc := hmatch.snoc hf (w.succeeds tx.conn stmt fate)
      have hself : (w.control i auto tx stmt done fate).controls b =
          w.controls b ++ [(stmt, w.succeeds tx.conn stmt fate)] := by
        rw [hc, if_pos rfl]
      have hother {b' : Borrow} (hbb : b ≠ b') :
          (w.control i auto tx stmt done fate).controls b' = w.controls b' := by
        rw [hc, if_neg hbb, List.append_nil]
      have hacq (b' : Borrow) (owner : Owner) :
          (w.control i auto tx stmt done fate).Acquired b' owner ↔ w.Acquired b' owner :=
        acquired_control ..
      obtain ⟨⟨owner, -, howner⟩, -⟩ := (hs.custody hp).booked ⟨_, hi, hholder⟩
      refine ⟨fun j d hj => ?_, fun b' => ?_, fun b' hb' => ?_⟩
      · by_cases hji : j = i
        · subst hji
          obtain rfl := Option.some.inj ((objects_set_self ..).symm.trans hj)
          intro b' hb'
          obtain rfl : b = b' := Option.some.inj (hholder.symm.trans hb')
          rw [hself]
          exact hsnoc
        · rw [World.control, World.put, objects_set_ne hji, pqExec_objects] at hj
          refine (h.suits j d hj).congr (fun b' hb' => hother ?_) fun b' o => (hacq b' o).mpr
          rintro rfl
          exact hji ((hs.custody hp).unique ⟨d, hj, hb'⟩ ⟨_, hi, hholder⟩)
      · by_cases hbb : b = b'
        · subst hbb
          rw [hself]
          exact hsnoc.protocol
        · rw [hother hbb]
          exact h.protocol b'
      · have hbb : b ≠ b' := by
          rintro rfl
          exact hb' owner ((hacq b owner).mpr howner)
        rw [hother hbb]
        exact h.fresh b' fun o ho => hb' o ((hacq b' o).mpr ho)

/-- A holder is returned, and objects are moved or go away. -/
theorem letGo (h : Orderly w) (holder : Option Borrow) : Orderly (w.letGo holder) := by
  refine h.frame ?_ (fun b owner => (acquired_letGo w holder b owner).mpr) fun i c hi => ?_
  · unfold World.letGo
    cases w.lock holder <;> rfl
  · rw [letGo_objects] at hi
    exact .inl (h.suits i c hi)

theorem set (h : Orderly w) {o : Option Capability} (ho : ∀ d, o = some d → w.Suits d) :
    Orderly (w.set i o) :=
  h.frame rfl (fun _ _ => id) fun j d hj =>
    .inl (forall_set (P := w.Suits) (h.suits) ho j d hj)

theorem destroy (hs : Sound w) (h : Orderly w) (hi : w.objects i = some c) (fate : Fate) :
    Orderly ((w.destroy c fate).drop i) := by
  rcases destroy_drop_cases w i c fate with ⟨heq, -⟩ | ⟨auto, tx, rfl, hactive, heq⟩
  · rw [heq]
    exact (h.letGo _).set fun d hd => by cases hd
  · rw [heq]
    refine ((control hs h hi ?_ fate).letGo _).set fun d hd => by cases hd
    rw [hactive]
    exact .rollback

theorem transfer (h : Orderly w) (hi : w.objects i = some c) :
    Orderly ((w.put i c.movedFrom).put j c) := by
  have htaken : Orderly (w.put i c.movedFrom) :=
    h.set fun d hd => Option.some.inj hd ▸ suits_of_empty c.handle_movedFrom
  exact htaken.set fun d hd => Option.some.inj hd ▸ h.suits i c hi

theorem begun (hs : Sound w) (h : Orderly w) (hl : Lendable w i k) (options : TransactionOptions)
    (fate : Fate) : Orderly (w.begun i k options fate) :=
  control (hs.unbegun hl options) (hand hs h (.transaction true options)) (objects_set_self ..)
    .begin fate

end Orderly

theorem orderly_step {w w' : World ε} {a : Action ε} (hs : Sound w) (h : Orderly w)
    (hstep : Step w a w') : Orderly w' := by
  cases hstep with
  | same => exact h
  | command a conn c fate hd =>
      exact h.frame (pqExec_sent_none ..) (fun b owner => (acquired_pqExec ..).mpr)
        fun i c hi => .inl (h.suits i c (by simpa using hi))
  | control hc hi hstatus => exact .control hs h hi (hstatus ▸ hc.follows) _
  | handed hl hc => exact .hand hs h hc
  | thrown hl hfail =>
      exact h.frame rfl (fun b owner hb => (acquired_acquire ..).mpr (.inl hb))
        fun i c hi => .inl (h.suits i c hi)
  | autoDeclined hl =>
      exact .destroy (hs.unbegun hl _) (.hand hs h (.transaction true _)) (objects_set_self ..) _
  | autoBegun hl => exact .begun hs h hl _ _
  | autoFailed hl htx hfailed => exact .destroy (hs.begun hl _ _) (.begun hs h hl _ _) htx _
  | moveConstructed hi hj => exact h.transfer hi
  | moveAssigned hi hj hclass hij => exact (h.letGo _).transfer (by rwa [letGo_objects])
  | destroyed hi => exact .destroy hs h hi _
  | broke k => exact h.frame rfl (fun _ _ => id) fun i c hi => .inl (h.suits i c hi)
  | poolGone => exact h.frame rfl (fun _ _ => id) fun i c hi => .inl (h.suits i c hi)

theorem orderly_of_run {as : List (Action ε)} {w : World ε} (h : run step start as = some w) :
    Sound w ∧ Orderly w :=
  run_invariant (I := fun w => Sound w ∧ Orderly w) ⟨.start, .start⟩
    (fun _ _ _ hi hstep => ⟨sound_step hi.1 (step_cases hstep),
      orderly_step hi.1 hi.2 (step_cases hstep)⟩) h

/-- For every borrow of a transaction the control statements follow the
protocol, and the holder is reset at most once, and once when no transaction
object is left. -/
theorem transaction_protocol {as : List (Action ε)} {w : World ε}
    (h : run step start as = some w) {b : Borrow} (hb : w.Acquired b .transaction) :
    Protocol (w.controls b) ∧ w.resets b ≤ 1 ∧
      (w.poolAlive = true → (∀ i auto tx, w.objects i ≠ some (.transaction auto tx)) →
        w.resets b = 1) := by
  obtain ⟨hs, ho⟩ := orderly_of_run h
  have hle : w.resets b ≤ 1 := by
    by_cases h0 : w.resets b = 0
    · omega
    · exact (hs.reset h0).1.le
  refine ⟨ho.protocol b, hle, fun hp hnone => ?_⟩
  by_contra hne
  obtain ⟨i, c, hi, hholder⟩ :=
    (hs.custody hp).found (x := b) ⟨⟨.transaction, by decide, hb⟩, by omega⟩
  cases c with
  | executor async handle => cases hs.owner hb (ho.suits i _ hi b hholder)
  | transaction auto tx => exact hnone i auto tx hi

/-- The error of the server that examples use. -/
def refusal : Refusal := ⟨"23505", by decide, "duplicate key", none, none, none, none⟩

/-- The statement is accepted. -/
abbrev accepted : Fate := .answered true refusal

/-- The statement is answered with an error. -/
abbrev refused : Fate := .answered false refusal

/-- A transaction is begun and moved onto one that has not been begun; then both
are destroyed. -/
def assignedOver : List (Action ℕ) :=
  [.enter 0 (.beginTransaction {}) (some 0), .enter 1 (.beginTransaction {}) (some 1),
    .begin 0 accepted, .moveAssign 0 1, .destroy 0 accepted, .destroy 1 accepted]

theorem transaction_protocol_assignedOver :
    ∃ w : World ℕ, run step start assignedOver = some w ∧ w.Acquired ⟨0, 0⟩ .transaction ∧
      Protocol (w.controls ⟨0, 0⟩) ∧ w.resets ⟨0, 0⟩ = 1 := by
  have hall (w : World ℕ) (h : run step start assignedOver = some w)
      (hb : w.Acquired ⟨0, 0⟩ .transaction) := transaction_protocol h hb
  refine ⟨_, rfl, List.mem_cons_self, (hall _ rfl List.mem_cons_self).1,
    (hall _ rfl List.mem_cons_self).2.2 rfl fun i auto tx hi => ?_⟩
  rcases i with _ | _ | i <;> cases hi

end Demiplane.Postgres.Capabilities

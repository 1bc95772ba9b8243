import Demiplane.Postgres.Capabilities.Protocol

/-!
Transaction blocks and the objects that believe in them. An active transaction
is in a block as long as its connection lives. The converse fails: a COMMIT or
ROLLBACK that never gets to the server, and an assignment to an active
transaction, leave a block behind that no object knows of.

Both are statements about an object and its connection. No two objects share a
connection, so a control statement concerns no object but the one that sends it;
`Fits` says this once for all such statements.
-/

namespace Demiplane.Postgres.Capabilities

open Custody Errors Sql Transition World

variable {ε : Type*} {tx : Transaction}

/-- `Q` holds of every object with its connection, while that lives. -/
def Fits (Q : Capability → Link ε → Prop) (w : World ε) : Prop :=
  ∀ i c k, w.objects i = some c → c.handle.conn = some k → (w.links k).alive = true →
    Q c (w.links k)

namespace Fits

variable {Q : Capability → Link ε → Prop} {w : World ε} {i j k : ℕ} {c : Capability}

theorem command (h : Fits Q w)
    (hQ : ∀ c l cmd fate, (Link.pqExec l (.command cmd) fate).1.alive = true → Q c l →
      Q c (l.pqExec (.command cmd) fate).1)
    (conn : Option ℕ) (cmd : Command ε) (fate : Fate) (sps : ℕ → Option Savepoint) :
    Fits Q { (w.pqExec none conn (.command cmd) fate).1 with savepoints := sps } := by
  intro j c k hj hk
  change ((w.pqExec none conn (.command cmd) fate).1.links k).alive = true →
    Q c ((w.pqExec none conn (.command cmd) fate).1.links k)
  replace hj : w.objects j = some c := by rwa [← pqExec_objects w none conn (.command cmd) fate]
  rw [pqExec_links]
  split_ifs with hconn
  · exact fun ha => hQ c _ cmd fate ha (h j c k hj hk (Link.alive_of_pqExec ha))
  · exact h j c k hj hk

theorem set (h : Fits Q w) {o : Option Capability}
    (ho : ∀ d, o = some d → ∀ k, d.handle.conn = some k → (w.links k).alive = true →
      Q d (w.links k)) : Fits Q (w.set i o) :=
  fun j d k hj hk ha => forall_set (P := fun d => ∀ k, d.handle.conn = some k →
    (w.links k).alive = true → Q d (w.links k)) (fun j d hj k => h j d k hj) ho j d hj k hk ha

/-- A control statement on a connection that only its sender has. -/
theorem control (hs : Sound w) (h : Fits Q w) {auto : Bool}
    (hi : w.objects i = some (.transaction auto tx)) {stmt : Statement ε}
    {done : TransactionStatus} {fate : Fate}
    (hnew : ∀ k, tx.conn = some k → ((w.links k).pqExec stmt fate).1.alive = true →
      Q (.transaction auto
          { tx with status := if (w.links k).succeeds stmt fate then done else .failed })
        ((w.links k).pqExec stmt fate).1) :
    Fits Q (w.control i auto tx stmt done fate) := by
  intro j c k hj hk
  change ((w.pqExec tx.holder tx.conn stmt fate).1.links k).alive = true →
    Q c ((w.pqExec tx.holder tx.conn stmt fate).1.links k)
  rw [pqExec_links]
  by_cases hji : j = i
  · subst hji
    obtain rfl := Option.some.inj ((objects_set_self ..).symm.trans hj)
    have hconn : tx.conn = some k := hk
    rw [if_pos hconn]
    intro ha
    have hok : w.succeeds tx.conn stmt fate = (w.links k).succeeds stmt fate := by
      simp [hconn, World.succeeds]
    rw [hok]
    exact hnew k hconn ha
  · rw [World.control, World.put, objects_set_ne hji, pqExec_objects] at hj
    split_ifs with hconn
    · intro ha
      have hp := hs.poolAlive_of_alive (Link.alive_of_pqExec ha)
      exact absurd (hs.conn_inj hp hj hi hk hconn) hji
    · exact h j c k hj hk

theorem letGo (h : Fits Q w) (holder : Option Borrow) : Fits Q (w.letGo holder) := by
  unfold World.letGo
  cases w.lock holder with
  | none => exact h
  | some b => exact h

theorem hand (h : Fits Q w) {owner : Owner} (hc : Fresh (w.next k) owner c)
    (hnew : (w.links k).alive = true → Q c (w.links k)) : Fits Q (w.hand i k owner c) := by
  refine set (w := w.acquire k owner) h fun d hd k' hk' => ?_
  obtain rfl := Option.some.inj hd
  rw [hc.handle] at hk'
  obtain rfl := Option.some.inj hk'
  exact hnew

theorem transfer (h : Fits Q w) (hi : w.objects i = some c) :
    Fits Q ((w.put i c.movedFrom).put j c) := by
  have htaken : Fits Q (w.put i c.movedFrom) := by
    refine h.set fun d hd k hk => ?_
    obtain rfl := Option.some.inj hd
    rw [c.handle_movedFrom] at hk
    cases hk
  refine htaken.set fun d hd k hk => ?_
  obtain rfl := Option.some.inj hd
  exact h i c k hi hk

theorem broke (h : Fits Q w) (k : ℕ) :
    Fits Q { w with links := Function.update w.links k (w.links k).broken } := by
  intro j c k' hj hk' ha
  have hsame := Link.update_broken ha
  simp only [hsame] at ha ⊢
  exact h j c k' hj hk' ha

end Fits

/-! ### Active transactions are in a block -/

def InBlock (c : Capability) (l : Link ε) : Prop :=
  c.isActive = true → l.session.block.isSome = true

theorem inBlock_command (c : Capability) (l : Link ε) (cmd : Command ε) (fate : Fate)
    (ha : (l.pqExec (.command cmd) fate).1.alive = true) (h : InBlock c l) :
    InBlock c (l.pqExec (.command cmd) fate).1 := by
  intro hactive
  rw [Link.pqExec_command_isSome ha]
  exact h hactive

theorem isActive_iff {auto : Bool} :
    (Capability.transaction auto tx).isActive = true ↔ tx.status = .active := by
  simp [Capability.isActive]

/-- A control statement leaves its transaction active only if it is a BEGIN that
has succeeded. -/
theorem inBlock_control {l : Link ε} {asked done : TransactionStatus} {stmt : Statement ε}
    (hf : Follows asked stmt done) (auto : Bool) (tx : Transaction) (fate : Fate) :
    InBlock (.transaction auto { tx with status := if l.succeeds stmt fate then done else .failed })
      (l.pqExec stmt fate).1 := by
  intro hactive
  rw [isActive_iff] at hactive
  split_ifs at hactive with hok
  · cases hf with
    | begin =>
        obtain ⟨ha, accepts, refusal, rfl, hexec⟩ := (l.succeeds_iff .begin fate).mp hok
        simp only [Link.pqExec, ha, if_true]
        exact Session.exec_begin_of_ok hexec
    | commit => cases hactive
    | rollback => cases hactive

theorem fresh_not_active {b : Borrow} {owner : Owner} {c : Capability} (h : Fresh b owner c) :
    c.isActive = false := by
  cases h <;> rfl

section

variable {w w' : World ε} {i k : ℕ} {c : Capability}

theorem inBlock_destroy (hs : Sound w) (h : Fits InBlock w) (hi : w.objects i = some c)
    (fate : Fate) : Fits InBlock ((w.destroy c fate).drop i) := by
  rcases destroy_drop_cases w i c fate with ⟨heq, -⟩ | ⟨auto, tx, rfl, hactive, heq⟩
  · rw [heq]
    exact (h.letGo _).set fun d hd => by cases hd
  · rw [heq]
    exact ((h.control hs hi fun _ _ _ => inBlock_control .rollback auto tx fate).letGo _).set
      fun d hd => by cases hd

theorem inBlock_hand (h : Fits InBlock w) {owner : Owner} (hc : Fresh (w.next k) owner c) :
    Fits InBlock (w.hand i k owner c) :=
  h.hand hc fun _ hactive => absurd (fresh_not_active hc) (by simp [hactive])

theorem inBlock_begun (hs : Sound w) (h : Fits InBlock w) (hl : Lendable w i k)
    (options : TransactionOptions) (fate : Fate) : Fits InBlock (w.begun i k options fate) :=
  (inBlock_hand h (.transaction true options)).control (hs.unbegun hl options)
    (objects_set_self ..) fun _ _ _ => inBlock_control .begin _ _ _

theorem inBlock_step {a : Action ε} (hs : Sound w) (h : Fits InBlock w) (hstep : Step w a w') :
    Fits InBlock w' := by
  cases hstep with
  | same => exact h
  | command a conn cmd fate hd => exact h.command inBlock_command conn cmd fate _
  | control hc hi hstatus =>
      exact h.control hs hi fun _ _ _ => inBlock_control hc.follows _ _ _
  | handed hl hc => exact inBlock_hand h hc
  | thrown hl hfail => exact h
  | autoDeclined hl =>
      exact inBlock_destroy (hs.unbegun hl _) (inBlock_hand h (.transaction true _))
        (objects_set_self ..) _
  | autoBegun hl => exact inBlock_begun hs h hl _ _
  | autoFailed hl htx hfailed =>
      exact inBlock_destroy (hs.begun hl _ _) (inBlock_begun hs h hl _ _) htx _
  | moveConstructed hi hj => exact h.transfer hi
  | moveAssigned hi hj hclass hij => exact (h.letGo _).transfer (by rwa [letGo_objects])
  | destroyed hi => exact inBlock_destroy hs h hi _
  | broke k => exact h.broke k
  | poolGone => exact fun i c k hi hk ha => by cases ha

end

theorem inBlock_of_run {as : List (Action ε)} {w : World ε} (h : run step start as = some w) :
    Sound w ∧ Fits InBlock w :=
  run_invariant (I := fun w => Sound w ∧ Fits InBlock w) ⟨.start, fun i c k hi => by cases hi⟩
    (fun _ _ _ hi hstep => ⟨sound_step hi.1 (step_cases hstep),
      inBlock_step hi.1 hi.2 (step_cases hstep)⟩) h

/-- A commit that returns success has had its COMMIT answered with OK in a block
of the transaction, and has committed the effects of the block unless the block
was aborted. -/
theorem commit_durable_unless_aborted {as : List (Action ε)} {w : World ε}
    (h : run step start as = some w) {i : ℕ} {auto : Bool} {tx : Transaction} {fate : Fate}
    (hi : w.objects i = some (.transaction auto tx)) (hok : (w.commit tx fate).2.2 = .ok ()) :
    (w.commit tx fate).2.1.status = .committed ∧
      ∃ k block accepts refusal, tx.conn = some k ∧ fate = .answered accepts refusal ∧
        (w.links k).session.block = some block ∧
        ((w.commit tx fate).1.links k).session =
          ⟨none, (w.links k).session.durable ++ if block.aborted then [] else [block.effects]⟩ := by
  obtain ⟨hs, hfits⟩ := inBlock_of_run h
  have hres : Controls w tx .active .commit .committed fate (w.commit tx fate) :=
    w.finish_controls .commit .committed tx fate
  generalize w.commit tx fate = res at hres hok ⊢
  cases hres with
  | declined f => cases hok
  | sent r hactive hr =>
      obtain rfl : r = .ok () := hok
      have hsucceeds : w.succeeds tx.conn .commit fate = true := hr.symm
      obtain ⟨k, hk, hlink⟩ := (w.succeeds_iff tx.conn .commit fate).mp hsucceeds
      obtain ⟨ha, accepts, refusal, rfl, hexec⟩ := (Link.succeeds_iff _ _ _).mp hlink
      obtain ⟨block, hblock⟩ :=
        Option.isSome_iff_exists.mp (hfits i _ k hi hk ha (isActive_iff.mpr hactive))
      refine ⟨by simp [hsucceeds], k, block, accepts, refusal, hk, rfl, hblock, ?_⟩
      have hsession : ((w.pqExec tx.holder tx.conn .commit (.answered accepts refusal)).1.links
          k).session = ((w.links k).session.exec .commit accepts).1 := by
        rw [pqExec_links, if_pos hk]
        simp [Link.pqExec, ha]
      rw [hsession, ← Session.exec_commit_durable hblock hexec,
        ← Session.exec_commit_block (w.links k).session accepts]

/-- A transaction with one statement that is carried out. -/
def oneStatement : List (Action ℕ) :=
  [.enter 0 (.beginTransaction {}) (some 0), .begin 0 accepted, .execute 0 1 accepted]

/-- The transaction of the runs that follow, once it is begun. -/
def begunTx : Transaction := ⟨⟨some ⟨0, 0⟩, some 0⟩, {}, .active⟩

theorem commit_durable_oneStatement :
    ∃ w : World ℕ, run step start oneStatement = some w ∧
      w.objects 0 = some (.transaction false begunTx) ∧
      (w.commit begunTx accepted).2.2 = .ok () ∧
      ∃ block, (w.links 0).session.block = some block ∧ block.aborted = false ∧
        ((w.commit begunTx accepted).1.links 0).session.durable = [[1]] := by
  have hall (w : World ℕ) (h : run step start oneStatement = some w)
      (hi : w.objects 0 = some (.transaction false begunTx))
      (hok : (w.commit begunTx accepted).2.2 = .ok ()) := commit_durable_unless_aborted h hi hok
  refine ⟨_, rfl, rfl, rfl, _, rfl, rfl, ?_⟩
  obtain ⟨-, k, block, accepts, refusal, hk, -, hblock, hsession⟩ := hall _ rfl rfl rfl
  obtain rfl : 0 = k := Option.some.inj hk
  obtain rfl := Option.some.inj hblock
  exact congrArg Session.durable hsession

/-- After a statement that is answered with an error the COMMIT rolls back, and
`commit()` returns success. -/
theorem failedStatement_not_durable :
    ∃ w : World ℕ, run step start (oneStatement ++ [.execute 0 2 refused]) = some w ∧
      w.objects 0 = some (.transaction false begunTx) ∧
      (w.commit begunTx accepted).2.2 = .ok () ∧
      (w.commit begunTx accepted).2.1.status = .committed ∧
      (∃ block, (w.links 0).session.block = some block ∧ block.effects = [1]) ∧
      ((w.commit begunTx accepted).1.links 0).session.durable = [] :=
  ⟨_, rfl, rfl, rfl, rfl, ⟨_, rfl, rfl⟩, rfl⟩

/-! ### Returned connections are in no block -/

/-- Every connection on whose holder `reset()` was called was in no block then,
or gone. -/
def ReturnsClean (w : World ε) : Prop :=
  ∀ b link, .reset b link ∈ w.bookings → link.alive = true → link.session.block = none

/-- An active transaction whose connection lives. -/
def World.LiveActive (w : World ε) (c : Capability) : Prop :=
  c.isActive = true ∧ ∃ k, c.handle.conn = some k ∧ (w.links k).alive = true

/-- A COMMIT or ROLLBACK of such a transaction is sent, and nothing is assigned
to it. -/
def EndsBlocks (w : World ε) : Action ε → Prop
  | .commit i fate | .rollback i fate | .destroy i fate =>
      ∀ c, w.objects i = some c → w.LiveActive c → ∀ message, fate ≠ .unsent message
  | .moveAssign i j => i ≠ j → ∀ c, w.objects j = some c → ¬ w.LiveActive c
  | _ => True

def Settled (c : Capability) (l : Link ε) : Prop :=
  c.isActive = false → l.session.block = none

structure Clean (w : World ε) : Prop where
  settled : Fits Settled w
  unlent : ∀ k, w.lent k = false → (w.links k).alive = true → (w.links k).session.block = none
  returned : ReturnsClean w

theorem block_command {l : Link ε} {cmd : Command ε} {fate : Fate}
    (ha : (l.pqExec (.command cmd) fate).1.alive = true) (h : l.session.block = none) :
    (l.pqExec (.command cmd) fate).1.session.block = none := by
  have hsome := Link.pqExec_command_isSome ha
  rw [h] at hsome
  exact Option.isNone_iff_eq_none.mp (by simpa using hsome)

/-- A COMMIT or ROLLBACK that is sent leaves no block, unless the connection goes. -/
theorem block_terminal {l : Link ε} {stmt : Statement ε} {fate : Fate}
    (hstmt : stmt = .commit ∨ stmt = .rollback)
    (hfate : l.alive = true → ∀ message, fate ≠ .unsent message)
    (ha : (l.pqExec stmt fate).1.alive = true) :
    (l.pqExec stmt fate).1.session.block = none := by
  have hl := Link.alive_of_pqExec ha
  simp only [Link.pqExec, hl, if_true] at ha ⊢
  cases fate with
  | answered accepts refusal => rcases hstmt with rfl | rfl <;> simp
  | unsent message => exact absurd rfl (hfate hl message)
  | lost reached message => cases ha

/-- A BEGIN that fails opens no block. -/
theorem block_begin {l : Link ε} {fate : Fate} (h : l.session.block = none)
    (hfail : l.succeeds .begin fate = false) (ha : (l.pqExec .begin fate).1.alive = true) :
    (l.pqExec .begin fate).1.session.block = none := by
  have hl := Link.alive_of_pqExec ha
  have hno := mt (l.succeeds_iff .begin fate).mpr (by simp [hfail])
  simp only [Link.pqExec, hl, if_true] at ha ⊢
  cases fate with
  | answered accepts refusal =>
      refine Session.exec_begin_of_error ?_ h
      by_contra hok
      exact hno ⟨hl, accepts, refusal, rfl, by simpa using hok⟩
  | unsent message => exact h
  | lost reached message => cases ha

namespace Clean

variable {w : World ε} {i j k : ℕ} {c : Capability}

theorem start : Clean (Capabilities.start : World ε) where
  settled i c k hi := by cases hi
  unlent k _ _ := rfl
  returned b link h := absurd h List.not_mem_nil

/-- Of the connections that are not lent, a statement needs looking at only where
it is sent on one. -/
theorem unlent_pqExec (h : Clean w) {sender : Option Borrow} {conn : Option ℕ}
    {stmt : Statement ε} {fate : Fate}
    (hsent : conn = some k → w.lent k = false → ((w.links k).pqExec stmt fate).1.alive = true →
      ((w.links k).pqExec stmt fate).1.session.block = none)
    (hk : (w.pqExec sender conn stmt fate).1.lent k = false)
    (ha : ((w.pqExec sender conn stmt fate).1.links k).alive = true) :
    ((w.pqExec sender conn stmt fate).1.links k).session.block = none := by
  rw [pqExec_lent] at hk
  rw [pqExec_links] at ha ⊢
  split_ifs at ha ⊢ with hconn
  · exact hsent hconn hk ha
  · exact h.unlent k hk ha

theorem command (h : Clean w) (conn : Option ℕ) (cmd : Command ε) (fate : Fate)
    (sps : ℕ → Option Savepoint) :
    Clean { (w.pqExec none conn (.command cmd) fate).1 with savepoints := sps } where
  settled := h.settled.command
    (fun _ _ _ _ ha hset hactive => block_command ha (hset hactive)) conn cmd fate sps
  unlent k := h.unlent_pqExec fun _ hk ha =>
    block_command ha (h.unlent k hk (Link.alive_of_pqExec ha))
  returned b link hb := h.returned b link (by simpa using hb)

theorem control (hs : Sound w) (h : Clean w) {auto : Bool}
    (hi : w.objects i = some (.transaction auto tx)) {stmt : Statement ε}
    {done : TransactionStatus} (hf : Follows tx.status stmt done) {fate : Fate}
    (hfate : stmt ≠ .begin → w.LiveActive (.transaction auto tx) →
      ∀ message, fate ≠ .unsent message) :
    Clean (w.control i auto tx stmt done fate) where
  settled := by
    refine h.settled.control hs hi fun k hk ha hactive => ?_
    have hl := Link.alive_of_pqExec ha
    generalize hst : tx.status = asked at hf
    cases hf with
    | begin =>
        have hnone := h.settled i _ k hi hk hl (by simp [Capability.isActive, hst])
        refine block_begin hnone ?_ ha
        by_contra hok
        simp [Capability.isActive, hok] at hactive
    | commit =>
        exact block_terminal (.inl rfl)
          (fun _ => hfate (by simp) ⟨isActive_iff.mpr hst, k, hk, hl⟩) ha
    | rollback =>
        exact block_terminal (.inr rfl)
          (fun _ => hfate (by simp) ⟨isActive_iff.mpr hst, k, hk, hl⟩) ha
  unlent k := by
    refine h.unlent_pqExec fun hconn hk ha => ?_
    have hp := hs.poolAlive_of_alive (Link.alive_of_pqExec ha)
    rw [hs.lent_of_conn hp hi hconn] at hk
    cases hk
  returned b link hb := h.returned b link (by simpa [World.control, World.put, World.set] using hb)

theorem letGo (h : Clean w) {holder : Option Borrow}
    (hclean : ∀ b, w.lock holder = some b → (w.links b.conn).alive = true →
      (w.links b.conn).session.block = none) : Clean (w.letGo holder) := by
  unfold World.letGo
  cases hl : w.lock holder with
  | none => exact h
  | some b =>
      refine ⟨h.settled, fun k hk ha => ?_, fun b' link hb' ha => ?_⟩
      · by_cases hkb : k = b.conn
        · subst hkb
          exact hclean b hl ha
        · exact h.unlent k (by simpa [World.reset, hkb] using hk) ha
      · rcases List.mem_append.mp hb' with hb' | hb'
        · exact h.returned b' link hb' ha
        · obtain ⟨rfl, rfl⟩ : b' = b ∧ link = w.links b.conn := by simpa using hb'
          exact hclean b' hl ha

theorem set (h : Clean w) {o : Option Capability}
    (ho : ∀ d, o = some d → ∀ k, d.handle.conn = some k → (w.links k).alive = true →
      Settled d (w.links k)) : Clean (w.set i o) :=
  ⟨h.settled.set ho, h.unlent, h.returned⟩

theorem acquire (h : Clean w) (k : ℕ) (owner : Owner) : Clean (w.acquire k owner) := by
  refine ⟨h.settled, fun j hj ha => ?_, fun b link hb => ?_⟩
  · by_cases hjk : j = k
    · subst hjk
      simp [World.acquire] at hj
    · exact h.unlent j (by simpa [World.acquire, hjk] using hj) ha
  · exact h.returned b link (by simpa [World.acquire] using hb)

theorem hand (h : Clean w) (hl : Lendable w i k) {owner : Owner}
    (hc : Fresh (w.next k) owner c) : Clean (w.hand i k owner c) := by
  have hacquired := h.acquire k owner
  exact ⟨h.settled.hand hc fun ha _ => h.unlent k hl.unlent ha, hacquired.unlent,
    hacquired.returned⟩

/-- The holder of an object that is not active is returned. -/
theorem letGo_inactive (hs : Sound w) (h : Clean w) (hi : w.objects i = some c)
    (hc : ¬ w.LiveActive c) : Clean (w.letGo c.handle.holder) := by
  refine h.letGo fun b hb ha => ?_
  have hholder : c.handle.holder = some b := by
    unfold World.lock at hb
    split_ifs at hb with hp
    exact hb
  have hconn := hs.conn_of_holder hi hholder
  refine h.settled i c b.conn hi hconn ha ?_
  by_contra hactive
  exact hc ⟨by simpa using hactive, b.conn, hconn, ha⟩

theorem destroy (hs : Sound w) (h : Clean w) (hi : w.objects i = some c) {fate : Fate}
    (hfate : w.LiveActive c → ∀ message, fate ≠ .unsent message) :
    Clean ((w.destroy c fate).drop i) := by
  rcases destroy_drop_cases w i c fate with ⟨heq, hlock⟩ | ⟨auto, tx, rfl, hactive, heq⟩
  · rw [heq]
    refine Clean.set ?_ fun d hd => by cases hd
    cases hactive : c.isActive with
    | true => exact h.letGo fun b hb => by rw [hlock hactive] at hb; cases hb
    | false => exact letGo_inactive hs h hi fun hlive => by simp [hlive.1] at hactive
  · rw [heq]
    have hf : Follows (ε := ε) tx.status .rollback .rolledBack := hactive ▸ .rollback
    have hcontrol := control hs h hi hf fun _ => hfate
    -- whatever becomes of the ROLLBACK, the transaction is not active afterwards
    refine Clean.set (letGo_inactive (hs.control hi .rollback .rolledBack fate) hcontrol
      (objects_set_self ..) fun hlive => ?_) fun d hd => by cases hd
    have hstatus := isActive_iff.mp hlive.1
    dsimp only at hstatus
    split_ifs at hstatus

theorem begun (hs : Sound w) (h : Clean w) (hl : Lendable w i k) (options : TransactionOptions)
    (fate : Fate) : Clean (w.begun i k options fate) :=
  control (hs.unbegun hl options) (h.hand hl (.transaction true options)) (objects_set_self ..)
    .begin fun hne => absurd rfl hne

theorem transfer (h : Clean w) (hi : w.objects i = some c) :
    Clean ((w.put i c.movedFrom).put j c) :=
  ⟨h.settled.transfer hi, h.unlent, h.returned⟩

end Clean

theorem clean_step {w w' : World ε} {a : Action ε} (hs : Sound w) (h : Clean w)
    (hg : EndsBlocks w a) (hstep : Step w a w') : Clean w' := by
  cases hstep with
  | same => exact h
  | command a conn cmd fate hd => exact h.command conn cmd fate _
  | control hc hi hstatus =>
      refine h.control hs hi (hstatus ▸ hc.follows) fun hne => ?_
      cases hc with
      | begin => exact absurd rfl hne
      | commit => exact hg _ hi
      | rollback => exact hg _ hi
  | handed hl hc => exact h.hand hl hc
  | thrown hl hfail => exact h.acquire _ _
  | autoDeclined hl =>
      exact (h.hand hl (.transaction true _)).destroy (hs.unbegun hl _) (objects_set_self ..)
        fun hlive => by cases hlive.1
  | autoBegun hl => exact h.begun hs hl _ _
  | autoFailed hl htx hfailed =>
      refine (h.begun hs hl _ _).destroy (hs.begun hl _ _) htx fun hlive => ?_
      rw [isActive_iff.mp hlive.1] at hfailed
      cases hfailed
  | moveConstructed hi hj => exact h.transfer hi
  | moveAssigned hi hj hclass hij =>
      exact (h.letGo_inactive hs hj (hg hij _ hj)).transfer (by rwa [letGo_objects])
  | destroyed hi => exact h.destroy hs hi (hg _ hi)
  | broke k =>
      refine ⟨h.settled.broke k, fun j hj ha => ?_, h.returned⟩
      have hsame := Link.update_broken ha
      simp only [hsame] at ha ⊢
      exact h.unlent j hj ha
  | poolGone =>
      exact ⟨(fun i c k hi hk ha => by cases ha), (fun k hk ha => by cases ha), h.returned⟩

/-! ### The condition is not too strong -/

section

variable {w w' : World ε} {i j k : ℕ} {c : Capability}

/-- The holder of a living connection is returned from within a block. -/
theorem not_returnsClean_letGo (hs : Sound w) (hi : w.objects i = some c)
    (hk : c.handle.conn = some k) (ha : (w.links k).alive = true)
    (hb : (w.links k).session.block.isSome = true) :
    ¬ ReturnsClean (w.letGo c.handle.holder) := by
  obtain ⟨b, hholder, rfl⟩ := hs.holder_of_conn hi hk
  have hlock : w.lock c.handle.holder = some b := by
    simp [World.lock, hs.poolAlive_of_alive ha, hholder]
  intro hclean
  unfold World.letGo at hclean
  rw [hlock] at hclean
  rw [hclean b (w.links b.conn) (List.mem_append_right _ (List.mem_singleton.mpr rfl)) ha] at hb
  cases hb

/-- A control statement that is not sent changes nothing at the server, and the
transaction has failed. -/
theorem control_unsent_links (w : World ε) (i : ℕ) (auto : Bool) (tx : Transaction)
    (stmt : Statement ε) (done : TransactionStatus) (message : String) :
    (w.control i auto tx stmt done (.unsent message)).links = w.links := by
  funext k
  change (w.pqExec tx.holder tx.conn stmt (.unsent message)).1.links k = w.links k
  rw [pqExec_links]
  split_ifs
  · simp only [Link.pqExec]
    split_ifs <;> rfl
  · rfl

theorem control_unsent_object (w : World ε) (i : ℕ) (auto : Bool) (tx : Transaction)
    (stmt : Statement ε) (done : TransactionStatus) (message : String) :
    (w.control i auto tx stmt done (.unsent message)).objects i =
      some (.transaction auto { tx with status := .failed }) := by
  have hfail : w.succeeds tx.conn stmt (.unsent message) = false := by
    by_contra hok
    obtain ⟨k, -, hok⟩ := (w.succeeds_iff _ _ _).mp (by simpa using hok)
    obtain ⟨-, accepts, refusal, hfate, -⟩ := (Link.succeeds_iff _ _ _).mp hok
    cases hfate
  simp [World.control, World.put, hfail]

theorem not_returnsClean_unsent (hs : Sound w) (h : Fits InBlock w) {auto : Bool}
    (hi : w.objects i = some (.transaction auto tx))
    (hlive : w.LiveActive (.transaction auto tx)) (stmt : Statement ε) (done : TransactionStatus)
    (message : String) :
    ¬ ReturnsClean ((w.control i auto tx stmt done (.unsent message)).letGo tx.holder) := by
  obtain ⟨hactive, k, hk, ha⟩ := hlive
  have hsome := h i _ k hi hk ha hactive
  have hlinks := control_unsent_links w i auto tx stmt done message
  exact not_returnsClean_letGo (hs.control hi stmt done (.unsent message))
    (control_unsent_object w i auto tx stmt done message) hk (by rwa [hlinks]) (by rwa [hlinks])

theorem not_returnsClean_destroy (hs : Sound w) (h : Fits InBlock w)
    (hi : w.objects i = some c) (hlive : w.LiveActive c) (message : String) :
    ¬ ReturnsClean ((w.destroy c (.unsent message)).drop i) := by
  rcases destroy_drop_cases w i c (.unsent message) with ⟨heq, -⟩ | ⟨auto, tx, rfl, -, heq⟩
  · rw [heq]
    obtain ⟨hactive, k, hk, ha⟩ := hlive
    exact not_returnsClean_letGo hs hi hk ha (h i c k hi hk ha hactive)
  · rw [heq]
    exact not_returnsClean_unsent hs h hi hlive .rollback .rolledBack message

/-- After a COMMIT or ROLLBACK that is not sent, the destructor returns the
connection as it is. -/
theorem not_returnsClean_after (hs : Sound w) (h : Fits InBlock w) {auto : Bool}
    (hi : w.objects i = some (.transaction auto tx))
    (hlive : w.LiveActive (.transaction auto tx)) (stmt : Statement ε) (done : TransactionStatus)
    (message : String) :
    ∃ bs w'', run step (w.control i auto tx stmt done (.unsent message)) bs = some w'' ∧
      ¬ ReturnsClean w'' := by
  have hobject := control_unsent_object w i auto tx stmt done message
  set failed : Capability := .transaction auto { tx with status := .failed } with hfailed
  refine ⟨[.destroy i (.unsent message)], ((w.control i auto tx stmt done
    (.unsent message)).destroy failed (.unsent message)).drop i, ?_, ?_⟩
  · simp [run, step, hobject]
  · rcases destroy_drop_cases (w.control i auto tx stmt done (.unsent message)) i failed
        (.unsent message) with ⟨heq, -⟩ | ⟨auto', tx', htx, hactive, -⟩
    · rw [heq]
      exact not_returnsClean_unsent hs h hi hlive stmt done message
    · rw [hfailed] at htx
      cases htx
      cases hactive

/-- Every action that breaks the condition can be followed by actions that
return a connection from within a block. -/
theorem not_returnsClean_of_not_endsBlocks {a : Action ε} (hs : Sound w) (h : Fits InBlock w)
    (hstep : step w a = some w') (hg : ¬ EndsBlocks w a) :
    ∃ bs w'', run step w' bs = some w'' ∧ ¬ ReturnsClean w'' := by
  cases a with
  | commit i fate =>
      simp only [EndsBlocks, not_forall, not_not] at hg
      obtain ⟨c, hc, hlive, message, rfl⟩ := hg
      cases c with
      | executor async handle => cases hlive.1
      | transaction auto tx =>
          simp only [step, hc, World.commit, Option.some.injEq] at hstep
          rw [← hstep, finish_of_active (isActive_iff.mp hlive.1)]
          exact not_returnsClean_after hs h hc hlive .commit .committed message
  | rollback i fate =>
      simp only [EndsBlocks, not_forall, not_not] at hg
      obtain ⟨c, hc, hlive, message, rfl⟩ := hg
      cases c with
      | executor async handle => cases hlive.1
      | transaction auto tx =>
          cases auto with
          | true => simp [step, hc] at hstep
          | false =>
              simp only [step, hc, World.rollback, Option.some.injEq] at hstep
              rw [← hstep, finish_of_active (isActive_iff.mp hlive.1)]
              exact not_returnsClean_after hs h hc hlive .rollback .rolledBack message
  | destroy i fate =>
      simp only [EndsBlocks, not_forall, not_not] at hg
      obtain ⟨c, hc, hlive, message, rfl⟩ := hg
      simp only [step, hc, Option.some.injEq] at hstep
      exact ⟨[], w', rfl, hstep ▸ not_returnsClean_destroy hs h hc hlive message⟩
  | moveAssign i j =>
      simp only [EndsBlocks, not_forall, not_not] at hg
      obtain ⟨hij, d, hd, hactive, k, hk, ha⟩ := hg
      have hdirty := not_returnsClean_letGo hs hd hk ha (h j d k hd hk ha hactive)
      simp only [step, hd] at hstep
      split at hstep
      · split_ifs at hstep
        cases ‹some d = some _›
        obtain rfl := Option.some.inj hstep
        exact ⟨[], _, rfl, hdirty⟩
      · cases hstep
  | _ => exact absurd trivial hg

end

/-- In every run in which each COMMIT or ROLLBACK of a transaction that is active
on a living connection is sent, and nothing is assigned to such a transaction, no
living connection is returned from within a block; and whatever breaks this
condition can be followed by a return from within a block. -/
theorem returnsClean_of_endsBlocks {as : List (Action ε)} {w : World ε}
    (h : run step start as = some w) (hg : Guarded step EndsBlocks start as) :
    Always step ReturnsClean start as ∧
      ∀ a w', step w a = some w' → ¬ EndsBlocks w a →
        ∃ bs w'', run step w' bs = some w'' ∧ ¬ ReturnsClean w'' := by
  refine ⟨?_, fun a w' hstep hbreaks => ?_⟩
  · exact always_of_guarded (I := fun w => Sound w ∧ Clean w) ⟨.start, .start⟩
      (fun _ _ _ hi hga hstep => ⟨sound_step hi.1 (step_cases hstep),
        clean_step hi.1 hi.2 hga (step_cases hstep)⟩)
      (fun _ hi => hi.2.returned) h hg
  · obtain ⟨hs, hfits⟩ := inBlock_of_run h
    exact not_returnsClean_of_not_endsBlocks hs hfits hstep hbreaks

/-- A transaction is begun and moved. -/
def movedActive : List (Action ℕ) :=
  [.enter 0 (.beginTransaction {}) (some 0), .begin 0 accepted, .moveConstruct 0 1]

theorem endsBlocks_movedActive : Guarded step EndsBlocks start movedActive := by
  iterate 3 refine (guarded_cons rfl).mpr ⟨trivial, ?_⟩
  exact guarded_nil _ _

/-- If the transaction is destroyed now, it returns its connection in no block; a
ROLLBACK that is not sent can lead to a return from within a block. -/
theorem returnsClean_movedActive :
    Guarded step EndsBlocks start (movedActive ++ [.destroy 1 accepted]) ∧
      Always step ReturnsClean start (movedActive ++ [.destroy 1 accepted]) ∧
      ∃ w w' : World ℕ, run step start movedActive = some w ∧
        step w (.rollback 1 (.unsent "")) = some w' ∧ ¬ EndsBlocks w (.rollback 1 (.unsent "")) ∧
        ∃ bs w'', run step w' bs = some w'' ∧ ¬ ReturnsClean w'' := by
  have hg : Guarded step EndsBlocks start (movedActive ++ [.destroy 1 accepted]) :=
    (guarded_snoc rfl).mpr ⟨endsBlocks_movedActive, fun _ _ _ _ hm => by cases hm⟩
  have hbreaks {w : World ℕ} (h : run step start movedActive = some w) :
      ¬ EndsBlocks w (.rollback 1 (.unsent "")) := by
    cases h
    exact fun hends => hends _ rfl ⟨rfl, 0, rfl, rfl⟩ "" rfl
  refine ⟨hg, (returnsClean_of_endsBlocks rfl hg).1, _, _, rfl, rfl, hbreaks rfl, ?_⟩
  exact (returnsClean_of_endsBlocks rfl endsBlocks_movedActive).2 (.rollback 1 (.unsent "")) _ rfl
    (hbreaks rfl)

/-- A transaction is assigned to an active one: the connection of the latter is
back in the pool, alive and in a block. -/
theorem assignedOverActive_dirty :
    ∃ w : World ℕ, run step start
        [.enter 0 (.beginTransaction {}) (some 0), .begin 0 accepted,
          .enter 1 (.beginTransaction {}) (some 1), .moveAssign 1 0] = some w ∧
      w.resets ⟨0, 0⟩ = 1 ∧ w.lent 0 = false ∧ (w.links 0).alive = true ∧
      (w.links 0).session.block.isSome = true ∧ ¬ ReturnsClean w := by
  refine ⟨_, rfl, rfl, rfl, rfl, rfl, fun hclean => ?_⟩
  have hnone := hclean ⟨0, 0⟩ _ (List.mem_append_right _ (List.mem_singleton.mpr rfl)) rfl
  cases hnone

end Demiplane.Postgres.Capabilities

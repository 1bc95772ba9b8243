import Mathlib.Data.List.Basic
import Demiplane.Custody.Ledger
import Demiplane.Postgres.Capabilities.Steps
import Demiplane.Transition.Run

/-!
Who has a borrow. A borrow that the pool has lent and not got back is in the
custody of exactly one object; moves hand it on, and destructors and assignments
give it back. The exception is the borrow of an `AsyncExecutor` whose constructor
throws, which nobody has and nobody gives back.
-/

namespace Demiplane.Postgres.Capabilities

open Custody Errors Sql Transition

variable {ε : Type*}

/-- A capability has a holder and its connection, or neither; a transaction
without them has failed. -/
def Capability.Wired : Capability → Prop
  | .executor _ h => (∃ b, h = ⟨some b, some b.conn⟩) ∨ h = .empty
  | .transaction _ tx =>
      (∃ b, tx.toHandle = ⟨some b, some b.conn⟩) ∨ tx.toHandle = .empty ∧ tx.status = .failed

def Booking.resets (b : Borrow) : Booking ε → Bool
  | .acquired _ _ => false
  | .reset b' _ => b' = b

namespace World

/-- Object `i` has the holder of borrow `b`. -/
def Sits (w : World ε) (b : Borrow) (i : ℕ) : Prop :=
  ∃ c, w.objects i = some c ∧ c.handle.holder = some b

def Acquired (w : World ε) (b : Borrow) (owner : Owner) : Prop :=
  .acquired b owner ∈ w.bookings

/-- How often `reset()` has been called for a borrow. -/
def resets (w : World ε) (b : Borrow) : ℕ := w.bookings.countP (Booking.resets b)

/-- An object was given the borrow, and it has not been reset. -/
def Outstanding (w : World ε) (b : Borrow) : Prop :=
  (∃ owner, owner ≠ .nobody ∧ w.Acquired b owner) ∧ w.resets b = 0

end World

open World

structure Sound (w : World ε) : Prop where
  closed : w.poolAlive = false → ∀ k, (w.links k).alive = false
  wired : ∀ {i c}, w.objects i = some c → c.Wired
  dated : ∀ {b owner}, w.Acquired b owner → b.turn < w.turns b.conn
  owner : ∀ {b owner owner'}, w.Acquired b owner → w.Acquired b owner' → owner = owner'
  reset : ∀ {b}, w.resets b ≠ 0 → w.resets b = 1 ∧ ∃ owner, owner ≠ .nobody ∧ w.Acquired b owner
  custody : w.poolAlive = true → Held w.Outstanding w.Sits
  current : w.poolAlive = true → ∀ {b owner}, w.Acquired b owner → w.resets b = 0 →
    w.lent b.conn = true ∧ b.turn + 1 = w.turns b.conn

theorem Capability.wired_movedFrom (c : Capability) : c.movedFrom.Wired := by
  cases c with
  | executor async h => exact .inr rfl
  | transaction auto tx => exact .inr ⟨rfl, rfl⟩

@[simp] theorem Capability.handle_movedFrom (c : Capability) : c.movedFrom.handle = .empty := by
  cases c <;> rfl

theorem Fresh.handle {b : Borrow} {owner : Owner} {c : Capability} (h : Fresh b owner c) :
    c.handle = ⟨some b, some b.conn⟩ := by
  cases h <;> rfl

theorem Fresh.wired {b : Borrow} {owner : Owner} {c : Capability} (h : Fresh b owner c) :
    c.Wired := by
  cases h with
  | executor async => exact .inl ⟨b, rfl⟩
  | transaction auto options => exact .inl ⟨b, rfl⟩

theorem Fresh.owner_ne {b : Borrow} {owner : Owner} {c : Capability} (h : Fresh b owner c) :
    owner ≠ .nobody := by
  cases h <;> decide

namespace World

theorem sits_set (w : World ε) (i : ℕ) (o : Option Capability) (b : Borrow) (j : ℕ) :
    (w.set i o).Sits b j ↔
      if j = i then ∃ c, o = some c ∧ c.handle.holder = some b else w.Sits b j := by
  unfold Sits set
  by_cases hji : j = i
  · subst hji
    simp
  · simp [hji]

@[simp] theorem resets_acquire (w : World ε) (k : ℕ) (owner : Owner) (b : Borrow) :
    (w.acquire k owner).resets b = w.resets b := by
  simp [resets, acquire, Booking.resets]

theorem acquired_acquire (w : World ε) (k : ℕ) (owner owner' : Owner) (b : Borrow) :
    (w.acquire k owner).Acquired b owner' ↔
      w.Acquired b owner' ∨ b = w.next k ∧ owner' = owner := by
  simp [Acquired, acquire, next]

theorem resets_reset (w : World ε) (b b' : Borrow) :
    (w.reset b).resets b' = w.resets b' + if b = b' then 1 else 0 := by
  simp [resets, reset, List.countP_append, Booking.resets]

@[simp] theorem acquired_reset (w : World ε) (b b' : Borrow) (owner : Owner) :
    (w.reset b).Acquired b' owner ↔ w.Acquired b' owner := by
  simp [Acquired, reset]

@[simp] theorem acquired_pqExec (w : World ε) (sender : Option Borrow) (conn : Option ℕ)
    (stmt : Statement ε) (fate : Fate) (b : Borrow) (owner : Owner) :
    (w.pqExec sender conn stmt fate).1.Acquired b owner ↔ w.Acquired b owner := by
  simp [Acquired]

@[simp] theorem acquired_letGo (w : World ε) (holder : Option Borrow) (b : Borrow)
    (owner : Owner) : (w.letGo holder).Acquired b owner ↔ w.Acquired b owner := by
  unfold letGo
  cases w.lock holder with
  | none => rfl
  | some b' => exact acquired_reset w b' b owner

@[simp] theorem acquired_destroy (w : World ε) (c : Capability) (fate : Fate) (b : Borrow)
    (owner : Owner) : (w.destroy c fate).Acquired b owner ↔ w.Acquired b owner := by
  rw [destroy_eq, acquired_letGo, Acquired, safetyNet_bookings]
  rfl

@[simp] theorem acquired_set (w : World ε) (i : ℕ) (o : Option Capability) (b : Borrow)
    (owner : Owner) : (w.set i o).Acquired b owner ↔ w.Acquired b owner :=
  Iff.rfl

@[simp] theorem acquired_control (w : World ε) (i : ℕ) (auto : Bool) (tx : Transaction)
    (stmt : Statement ε) (done : TransactionStatus) (fate : Fate) (b : Borrow) (owner : Owner) :
    (w.control i auto tx stmt done fate).Acquired b owner ↔ w.Acquired b owner := by
  simp [control, put]

end World

namespace Sound

variable {w : World ε} {i j k : ℕ} {c d : Capability} {b : Borrow}

theorem start : Sound (Capabilities.start : World ε) where
  closed h := by cases h
  wired h := by cases h
  dated h := absurd h List.not_mem_nil
  owner h := absurd h List.not_mem_nil
  reset h := absurd rfl h
  custody _ :=
    { booked := by
        rintro b i ⟨c, hc, -⟩
        cases hc
      found := by
        rintro b ⟨⟨owner, -, howner⟩, -⟩
        exact absurd howner List.not_mem_nil
      unique := by
        rintro b i j ⟨c, hc, -⟩
        cases hc }
  current _ _ _ h := absurd h List.not_mem_nil

/-- What is sent, and what becomes of the savepoints, changes nobody's holder. -/
theorem relink (h : Sound w) {links : ℕ → Link ε} (sps : ℕ → Option Savepoint)
    (sent : List (Sent ε))
    (hl : ∀ k, (links k).alive = true → (w.links k).alive = true) :
    Sound { w with links := links, savepoints := sps, sent := sent } where
  closed hp k := by
    have hdead := h.closed hp k
    by_contra halive
    rw [hl k (by simpa using halive)] at hdead
    cases hdead
  wired := h.wired
  dated := h.dated
  owner := h.owner
  reset := h.reset
  custody := h.custody
  current := h.current

theorem pqExec (h : Sound w) (sender : Option Borrow) (conn : Option ℕ) (stmt : Statement ε)
    (fate : Fate) : Sound (w.pqExec sender conn stmt fate).1 := by
  cases conn with
  | none => exact h
  | some k =>
      refine h.relink w.savepoints _ fun j hj => ?_
      by_cases hjk : j = k
      · subst hjk
        rw [Function.update_self] at hj
        exact Link.alive_of_pqExec hj
      · rwa [Function.update_of_ne hjk] at hj

theorem wired_set (h : Sound w) {o : Option Capability} (hwired : ∀ d, o = some d → d.Wired)
    (hj : (w.set i o).objects j = some d) : d.Wired :=
  forall_set (fun _ _ => h.wired) hwired j d hj

/-- An object changes and keeps its holder, or has none before and after. -/
theorem set (h : Sound w) (o : Option Capability) (hwired : ∀ d, o = some d → d.Wired)
    (hsits : ∀ b, (∃ d, o = some d ∧ d.handle.holder = some b) ↔ w.Sits b i) :
    Sound (w.set i o) := by
  have hiff (b : Borrow) (j : ℕ) : (w.set i o).Sits b j ↔ w.Sits b j := by
    rw [sits_set]
    split_ifs with hji
    · rw [hsits, hji]
    · exact Iff.rfl
  refine ⟨h.closed, h.wired_set hwired, h.dated, h.owner, h.reset, fun hp => ?_, h.current⟩
  have hheld := h.custody hp
  exact ⟨fun hb => hheld.booked ((hiff _ _).mp hb),
    fun hb => (hheld.found hb).imp fun i hi => (hiff _ _).mpr hi,
    fun hi hj => hheld.unique ((hiff _ _).mp hi) ((hiff _ _).mp hj)⟩

theorem put (h : Sound w) (hi : w.objects i = some c) (hhandle : d.handle = c.handle)
    (hwired : d.Wired) : Sound (w.put i d) := by
  refine h.set (some d) (fun x hx => ?_) fun b => ?_
  · obtain rfl := Option.some.inj hx
    exact hwired
  · simp [Sits, hi, hhandle]

theorem not_acquired_next (h : Sound w) (k : ℕ) (owner : Owner) :
    ¬ w.Acquired (w.next k) owner :=
  fun hb => absurd (h.dated hb) (lt_irrefl _)

theorem resets_next (h : Sound w) (k : ℕ) : w.resets (w.next k) = 0 := by
  by_contra hne
  obtain ⟨-, owner, -, hb⟩ := h.reset hne
  exact h.not_acquired_next k owner hb

/-- No borrow of a connection that is not lent is outstanding. -/
theorem conn_ne (h : Sound w) (hl : Lendable w i k) {owner : Owner} (hb : w.Acquired b owner)
    (h0 : w.resets b = 0) : b.conn ≠ k := by
  rintro rfl
  have hlent := (h.current hl.alive hb h0).1
  rw [hl.unlent] at hlent
  cases hlent

/-- The part of the invariant that a lending keeps whoever is given the borrow. -/
theorem acquire (h : Sound w) (hl : Lendable w i k) {recipient : Owner} {o : Option Capability}
    (hwired : ∀ d, o = some d → d.Wired)
    (hheld : Held (w.acquire k recipient).Outstanding ((w.acquire k recipient).set i o).Sits) :
    Sound ((w.acquire k recipient).set i o) where
  closed := h.closed
  wired := h.wired_set hwired
  dated {b owner} hb := by
    change b.turn < Function.update w.turns k (w.turns k + 1) b.conn
    rcases (acquired_acquire w k recipient owner b).mp hb with hb | ⟨rfl, -⟩
    · have hlt := h.dated hb
      by_cases hbk : b.conn = k
      · subst hbk
        rw [Function.update_self]
        omega
      · rwa [Function.update_of_ne hbk]
    · simp [next]
  owner {b o₁ o₂} h₁ h₂ := by
    rcases (acquired_acquire w k recipient o₁ b).mp h₁ with h₁ | ⟨hb, ho⟩ <;>
      rcases (acquired_acquire w k recipient o₂ b).mp h₂ with h₂ | ⟨hb', ho'⟩
    · exact h.owner h₁ h₂
    · exact absurd (hb' ▸ h₁) (h.not_acquired_next k o₁)
    · exact absurd (hb ▸ h₂) (h.not_acquired_next k o₂)
    · exact ho.trans ho'.symm
  reset {b} hb := by
    change (w.acquire k recipient).resets b ≠ 0 at hb
    rw [resets_acquire] at hb
    obtain ⟨h₁, owner, hne, hb'⟩ := h.reset hb
    exact ⟨(resets_acquire w k recipient b).trans h₁, owner, hne,
      (acquired_acquire w k recipient owner b).mpr (.inl hb')⟩
  custody _ := hheld
  current _ {b owner} hb h0 := by
    change Function.update w.lent k true b.conn = true ∧
      b.turn + 1 = Function.update w.turns k (w.turns k + 1) b.conn
    rcases (acquired_acquire w k recipient owner b).mp hb with hb | ⟨rfl, -⟩
    · have h0' : w.resets b = 0 := (resets_acquire w k recipient b).symm.trans h0
      have hne := h.conn_ne hl hb h0'
      rw [Function.update_of_ne hne, Function.update_of_ne hne]
      exact h.current hl.alive hb h0'
    · simp [next]

theorem outstanding_acquire (w : World ε) (k : ℕ) (owner : Owner) (b : Borrow) :
    (w.acquire k owner).Outstanding b ↔
      w.Outstanding b ∨ owner ≠ .nobody ∧ b = w.next k ∧ w.resets b = 0 := by
  simp only [Outstanding, acquired_acquire, resets_acquire]
  constructor
  · rintro ⟨⟨o, hne, ho | ⟨rfl, rfl⟩⟩, h0⟩
    · exact .inl ⟨⟨o, hne, ho⟩, h0⟩
    · exact .inr ⟨hne, rfl, h0⟩
  · rintro (⟨⟨o, hne, ho⟩, h0⟩ | ⟨hne, rfl, h0⟩)
    · exact ⟨⟨o, hne, .inl ho⟩, h0⟩
    · exact ⟨⟨owner, hne, .inr ⟨rfl, rfl⟩⟩, h0⟩

theorem hand (h : Sound w) (hl : Lendable w i k) {owner : Owner}
    (hc : Fresh (w.next k) owner c) : Sound (w.hand i k owner c) := by
  have hnone (b : Borrow) : ¬ w.Sits b i := by
    rintro ⟨d, hd, -⟩
    rw [hl.empty] at hd
    cases hd
  refine h.acquire hl (fun d hd => Option.some.inj hd ▸ hc.wired) ?_
  refine (h.custody hl.alive).issue (x := w.next k) (q := i) ?_ (fun b j => ?_) fun b => ?_
  · rintro ⟨⟨o, -, ho⟩, -⟩
    exact h.not_acquired_next k o ho
  · rw [sits_set]
    by_cases hji : j = i
    · subst hji
      simp [hnone, hc.handle, eq_comm]
    · rw [if_neg hji]
      exact ⟨.inl, fun hb => hb.resolve_right fun hb => hji hb.2⟩
  · rw [outstanding_acquire]
    refine or_congr_right ⟨fun hb => hb.2.1, ?_⟩
    rintro rfl
    exact ⟨hc.owner_ne, rfl, h.resets_next k⟩

theorem thrown (h : Sound w) (hl : Lendable w i k) : Sound (w.acquire k .nobody) := by
  have hsame : (w.acquire k .nobody).set i none = w.acquire k .nobody := by
    have hobjects : Function.update w.objects i none = w.objects := by
      rw [← hl.empty, Function.update_eq_self]
    simp [World.set, World.acquire, hobjects]
  have hheld := h.custody hl.alive
  rw [← hsame]
  refine h.acquire hl (fun d hd => by cases hd) ?_
  rw [hsame]
  refine ⟨fun hb => ?_, fun hb => ?_, fun hi hj => hheld.unique hi hj⟩
  · exact (outstanding_acquire w k .nobody _).mpr (.inl (hheld.booked hb))
  · rcases (outstanding_acquire w k .nobody _).mp hb with hb | ⟨hne, -⟩
    · exact hheld.found hb
    · exact absurd rfl hne

/-- Two borrows of one connection are not outstanding at the same time. -/
theorem eq_of_conn (h : Sound w) (hp : w.poolAlive = true) {b b' : Borrow} {owner owner' : Owner}
    (hb : w.Acquired b owner) (h0 : w.resets b = 0) (hb' : w.Acquired b' owner')
    (h0' : w.resets b' = 0) (hconn : b.conn = b'.conn) : b = b' := by
  have hturn := (h.current hp hb h0).2
  have hturn' := (h.current hp hb' h0').2
  rw [hconn] at hturn
  obtain ⟨conn, turn⟩ := b
  obtain ⟨conn', turn'⟩ := b'
  simp only [Borrow.mk.injEq] at hconn hturn hturn' ⊢
  exact ⟨hconn, by omega⟩

theorem outstanding_reset (w : World ε) (b b' : Borrow) :
    (w.reset b).Outstanding b' ↔ w.Outstanding b' ∧ b' ≠ b := by
  simp only [Outstanding, acquired_reset, resets_reset]
  by_cases hbb : b = b'
  · subst hbb
    simp
  · simp [hbb, Ne.symm hbb]

/-- An object gives its holder back, and what is in its place then has none. -/
theorem reset_set (h : Sound w) (hp : w.poolAlive = true) (hi : w.objects i = some c)
    (hb : c.handle.holder = some b) {o : Option Capability} (hwired : ∀ d, o = some d → d.Wired)
    (hempty : ∀ b, ¬ ∃ d, o = some d ∧ d.handle.holder = some b) :
    Sound ((w.reset b).set i o) := by
  have hsits : w.Sits b i := ⟨c, hi, hb⟩
  obtain ⟨⟨owner, hne, howner⟩, h0⟩ := (h.custody hp).booked hsits
  refine ⟨fun hd => absurd (hp.symm.trans hd) Bool.noConfusion, h.wired_set hwired,
    fun hb' => h.dated ((acquired_reset w b _ _).mp hb'),
    fun h₁ h₂ => h.owner ((acquired_reset w b _ _).mp h₁) ((acquired_reset w b _ _).mp h₂),
    fun {b'} hb' => ?_, fun _ => ?_, fun _ {b' owner'} hb' h0' => ?_⟩
  · change (w.reset b).resets b' ≠ 0 at hb'
    change (w.reset b).resets b' = 1 ∧ ∃ o, o ≠ .nobody ∧ (w.reset b).Acquired b' o
    simp only [acquired_reset, resets_reset] at hb' ⊢
    by_cases hbb : b = b'
    · subst hbb
      exact ⟨by rw [h0, if_pos rfl], owner, hne, howner⟩
    · rw [if_neg hbb] at hb' ⊢
      exact h.reset hb'
  · refine (h.custody hp).retire hsits (fun b' j => ?_) (outstanding_reset w b)
    rw [sits_set]
    by_cases hji : j = i
    · subst hji
      rw [if_pos rfl]
      refine iff_of_false (hempty b') ?_
      rintro ⟨⟨d, hd, hholder⟩, hne'⟩
      obtain rfl := Option.some.inj (hi.symm.trans hd)
      exact hne' ⟨Option.some.inj (hholder.symm.trans hb), rfl⟩
    · rw [if_neg hji]
      exact ⟨fun hs => ⟨hs, fun hbj => hji hbj.2⟩, And.left⟩
  · have hb'' : w.Acquired b' owner' := (acquired_reset w b b' owner').mp hb'
    have hbb : b ≠ b' := by
      rintro rfl
      have hone := resets_reset w b b
      rw [h0, if_pos rfl] at hone
      exact absurd (h0'.symm.trans hone) (by decide)
    have h0'' : w.resets b' = 0 := by
      have hsame := resets_reset w b b'
      rw [if_neg hbb, Nat.add_zero] at hsame
      exact hsame.symm.trans h0'
    have hconn : b'.conn ≠ b.conn := fun hconn =>
      hbb (h.eq_of_conn hp hb'' h0'' howner h0 hconn).symm
    change Function.update w.lent b.conn false b'.conn = true ∧ _
    rw [Function.update_of_ne hconn]
    exact h.current hp hb'' h0''

theorem vacate (h : Sound w) (hi : w.objects i = some c) (o : Option Capability)
    (hwired : ∀ d, o = some d → d.Wired) (hempty : ∀ d, o = some d → d.handle = .empty) :
    Sound ((w.letGo c.handle.holder).set i o) := by
  have hnone (b : Borrow) : ¬ ∃ d, o = some d ∧ d.handle.holder = some b := by
    rintro ⟨d, hd, hb⟩
    rw [hempty d hd] at hb
    cases hb
  unfold letGo World.lock
  cases hp : w.poolAlive with
  | false =>
      exact ⟨h.closed, h.wired_set hwired, h.dated, h.owner, h.reset,
        fun halive => absurd (hp.symm.trans halive) Bool.false_ne_true,
        fun halive => absurd (hp.symm.trans halive) Bool.false_ne_true⟩
  | true =>
      cases hb : c.handle.holder with
      | none =>
          refine h.set o hwired fun b => iff_of_false (hnone b) ?_
          rintro ⟨d, hd, hholder⟩
          obtain rfl := Option.some.inj (hi.symm.trans hd)
          rw [hb] at hholder
          cases hholder
      | some b => exact h.reset_set hp hi hb hwired hnone

/-- An object is moved to a place where no holder is. -/
theorem transfer (h : Sound w) (hi : w.objects i = some c) (hij : i ≠ j)
    (hj : ∀ b, ¬ w.Sits b j) : Sound ((w.put i c.movedFrom).put j c) := by
  have htaken (b : Borrow) (r : ℕ) : (w.put i c.movedFrom).Sits b r ↔ w.Sits b r ∧ r ≠ i := by
    rw [World.put, sits_set]
    by_cases hri : r = i
    · simp [hri, Handle.empty]
    · simp [hri]
  have hput (b : Borrow) (r : ℕ) : ((w.put i c.movedFrom).put j c).Sits b r ↔
      (w.put i c.movedFrom).Sits b r ∨ c.handle.holder = some b ∧ r = j := by
    rw [World.put, sits_set, htaken]
    by_cases hrj : r = j
    · subst hrj
      simp [hj]
    · simp [hrj]
  have hwired {r : ℕ} {d : Capability}
      (hr : ((w.put i c.movedFrom).put j c).objects r = some d) : d.Wired :=
    forall_set (forall_set (fun _ _ => h.wired) fun d hd => Option.some.inj hd ▸ c.wired_movedFrom)
      (fun d hd => Option.some.inj hd ▸ h.wired hi) r d hr
  refine ⟨h.closed, hwired, h.dated, h.owner, h.reset, fun hp => ?_, h.current⟩
  cases hb : c.handle.holder with
  | none =>
      have hiff (b : Borrow) (r : ℕ) :
          ((w.put i c.movedFrom).put j c).Sits b r ↔ w.Sits b r := by
        rw [hput, htaken, hb]
        refine ⟨fun hs => (hs.resolve_right fun hn => by cases hn.1).1, fun hs => .inl ⟨hs, ?_⟩⟩
        rintro rfl
        obtain ⟨d, hd, hholder⟩ := hs
        obtain rfl := Option.some.inj (hi.symm.trans hd)
        rw [hb] at hholder
        cases hholder
      have hheld := h.custody hp
      exact ⟨fun hs => hheld.booked ((hiff _ _).mp hs),
        fun hs => (hheld.found hs).imp fun r hr => (hiff _ _).mpr hr,
        fun hr hs => hheld.unique ((hiff _ _).mp hr) ((hiff _ _).mp hs)⟩
  | some b =>
      have hsits : w.Sits b i := ⟨c, hi, hb⟩
      have htake (b' : Borrow) (r : ℕ) :
          (w.put i c.movedFrom).Sits b' r ↔ w.Sits b' r ∧ ¬ (b' = b ∧ r = i) := by
        rw [htaken]
        refine and_congr_right fun hs => not_congr ⟨fun hri => ?_, And.right⟩
        subst hri
        obtain ⟨d, hd, hholder⟩ := hs
        obtain rfl := Option.some.inj (hi.symm.trans hd)
        exact ⟨Option.some.inj (hholder.symm.trans hb), rfl⟩
      refine (h.custody hp).move (q := j) hsits htake fun b' r => ?_
      rw [hput, hb, Option.some.injEq, eq_comm]

theorem control (h : Sound w) {auto : Bool} {tx : Transaction}
    (hi : w.objects i = some (.transaction auto tx)) (stmt : Statement ε)
    (done : TransactionStatus) (fate : Fate) : Sound (w.control i auto tx stmt done fate) := by
  have hi' : (w.pqExec tx.holder tx.conn stmt fate).1.objects i = some (.transaction auto tx) := by
    rw [pqExec_objects, hi]
  refine (h.pqExec tx.holder tx.conn stmt fate).put hi' rfl ?_
  rcases h.wired hi with hb | ⟨hempty, -⟩
  · exact .inl hb
  · have hconn : tx.conn = none := congrArg Handle.conn hempty
    exact .inr ⟨hempty, by simp [hconn, World.succeeds]⟩

theorem safetyNet (h : Sound w) (c : Capability) (fate : Fate) : Sound (w.safetyNet c fate) := by
  rcases safetyNet_cases w c fate with ⟨hnet, -⟩ | ⟨auto, tx, -, -, hnet⟩
  · rwa [hnet]
  · rw [hnet]
    exact h.pqExec tx.holder tx.conn .rollback fate

theorem destroy (h : Sound w) (hi : w.objects i = some c) (fate : Fate) :
    Sound ((w.destroy c fate).drop i) := by
  rw [destroy_eq]
  refine (h.safetyNet c fate).vacate ?_ none (fun d hd => by cases hd) fun d hd => by cases hd
  rwa [safetyNet_objects]

theorem moveAssign (h : Sound w) (hi : w.objects i = some c) (hj : w.objects j = some d)
    (hij : i ≠ j) : Sound (((w.letGo d.handle.holder).put i c.movedFrom).put j c) := by
  have hvacated : Sound ((w.letGo d.handle.holder).put j d.movedFrom) :=
    h.vacate hj (some d.movedFrom) (fun x hx => Option.some.inj hx ▸ d.wired_movedFrom)
      fun x hx => Option.some.inj hx ▸ d.handle_movedFrom
  have hmoved := hvacated.transfer (i := i) (j := j) (c := c) ?_ hij ?_
  · rwa [put_put_put hij] at hmoved
  · rw [World.put, objects_set_ne hij, letGo_objects, hi]
  · intro b
    rw [World.put, sits_set, if_pos rfl]
    simp [Handle.empty]

theorem unbegun (h : Sound w) (hl : Lendable w i k) (options : TransactionOptions) :
    Sound (w.unbegun i k options) :=
  h.hand hl (.transaction true options)

theorem begun (h : Sound w) (hl : Lendable w i k) (options : TransactionOptions) (fate : Fate) :
    Sound (w.begun i k options fate) :=
  (h.unbegun hl options).control (Function.update_self i _ _) .begin .active fate

end Sound

theorem sound_step {w w' : World ε} {a : Action ε} (h : Sound w) (hstep : Step w a w') :
    Sound w' := by
  cases hstep with
  | same => exact h
  | @command _ sps conn c fate hd =>
      exact (h.pqExec none conn (.command c) fate).relink sps _ fun _ hk => hk
  | control hc hi hs => exact h.control hi _ _ _
  | handed hl hc => exact h.hand hl hc
  | thrown hl hs => exact h.thrown hl
  | autoDeclined hl => exact (h.unbegun hl _).destroy (Function.update_self _ _ _) _
  | autoBegun hl => exact h.begun hl _ _
  | autoFailed hl htx hs => exact (h.begun hl _ _).destroy htx _
  | @moveConstructed i j c hi hj =>
      refine h.transfer hi ?_ ?_
      · rintro rfl
        rw [hi] at hj
        cases hj
      · rintro b ⟨d, hd, -⟩
        rw [hj] at hd
        cases hd
  | moveAssigned hi hj hclass hij => exact h.moveAssign hi hj hij
  | destroyed hi => exact h.destroy hi _
  | broke k =>
      refine h.relink w.savepoints w.sent fun j hj => ?_
      rwa [Link.update_broken hj] at hj
  | poolGone =>
      exact ⟨fun _ _ => rfl, h.wired, h.dated, h.owner, h.reset, (fun hp => by cases hp),
        (fun hp => by cases hp)⟩

namespace Sound

variable {w : World ε} {i j k : ℕ} {c d : Capability}

theorem poolAlive_of_alive (h : Sound w) (ha : (w.links k).alive = true) : w.poolAlive = true := by
  by_contra hp
  rw [h.closed (by simpa using hp) k] at ha
  cases ha

theorem handle_cases (h : Sound w) (hi : w.objects i = some c) :
    (∃ b, c.handle = ⟨some b, some b.conn⟩) ∨ c.handle = .empty := by
  cases c with
  | executor async handle => exact h.wired hi
  | transaction auto tx => exact (h.wired hi).imp id And.left

/-- An object with a connection has a holder of it. -/
theorem holder_of_conn (h : Sound w) (hi : w.objects i = some c) (hk : c.handle.conn = some k) :
    ∃ b, c.handle.holder = some b ∧ b.conn = k := by
  rcases h.handle_cases hi with ⟨b, hb⟩ | hempty
  · rw [hb] at hk ⊢
    exact ⟨b, rfl, Option.some.inj hk⟩
  · rw [hempty] at hk
    cases hk

theorem conn_of_holder (h : Sound w) (hi : w.objects i = some c) {b : Borrow}
    (hb : c.handle.holder = some b) : c.handle.conn = some b.conn := by
  rcases h.handle_cases hi with ⟨b', hb'⟩ | hempty
  · rw [hb'] at hb ⊢
    obtain rfl := Option.some.inj hb
    rfl
  · rw [hempty] at hb
    cases hb

/-- No two objects work on one connection. -/
theorem conn_inj (h : Sound w) (hp : w.poolAlive = true) (hi : w.objects i = some c)
    (hj : w.objects j = some d) (hc : c.handle.conn = some k) (hd : d.handle.conn = some k) :
    i = j := by
  obtain ⟨b, hb, hbk⟩ := h.holder_of_conn hi hc
  obtain ⟨b', hb', hbk'⟩ := h.holder_of_conn hj hd
  have hheld := h.custody hp
  obtain ⟨⟨owner, -, hown⟩, h0⟩ := hheld.booked ⟨c, hi, hb⟩
  obtain ⟨⟨owner', -, hown'⟩, h0'⟩ := hheld.booked ⟨d, hj, hb'⟩
  obtain rfl := h.eq_of_conn hp hown h0 hown' h0' (hbk.trans hbk'.symm)
  exact hheld.unique ⟨c, hi, hb⟩ ⟨d, hj, hb'⟩

theorem lent_of_conn (h : Sound w) (hp : w.poolAlive = true) (hi : w.objects i = some c)
    (hc : c.handle.conn = some k) : w.lent k = true := by
  obtain ⟨b, hb, rfl⟩ := h.holder_of_conn hi hc
  obtain ⟨⟨owner, -, hown⟩, h0⟩ := (h.custody hp).booked ⟨c, hi, hb⟩
  exact (h.current hp hown h0).1

end Sound

/-! ### No borrow is lost -/

/-- While there is a pool, every borrow either is with exactly one object and has
not been reset, or is with none and has been reset once. -/
def Accounted (w : World ε) : Prop :=
  w.poolAlive = true → ∀ b owner, w.Acquired b owner →
    (w.resets b = 0 ∧ ∃ i, w.Sits b i ∧ ∀ j, w.Sits b j → j = i) ∨
      w.resets b = 1 ∧ ∀ i, ¬ w.Sits b i

/-- Where `with_async` has got a connection, all calls of `setup_connection`
succeed. -/
def SetsUp (w : World ε) : Action ε → Prop
  | .enter _ (.withAsync setup) (some k) =>
      ∃ fd, setupConnection (w.links k).status setup = .ok fd
  | _ => True

theorem Sound.accounted_iff {w : World ε} (h : Sound w) :
    Accounted w ↔ (w.poolAlive = true → ∀ b, ¬ w.Acquired b .nobody) := by
  refine forall_congr' fun hp => ⟨fun hall b hb => ?_, fun hno b owner hb => ?_⟩
  · have hnot : ¬ ∃ owner, owner ≠ .nobody ∧ w.Acquired b owner := by
      rintro ⟨owner, hne, hb'⟩
      exact hne (h.owner hb' hb)
    rcases hall b .nobody hb with ⟨-, i, hi, -⟩ | ⟨h1, -⟩
    · exact hnot ((h.custody hp).booked hi).1
    · exact hnot (h.reset (b := b) (by omega)).2
  · have hne : owner ≠ .nobody := by
      rintro rfl
      exact hno b hb
    by_cases h0 : w.resets b = 0
    · obtain ⟨i, hi⟩ := (h.custody hp).found ⟨⟨owner, hne, hb⟩, h0⟩
      exact .inl ⟨h0, i, hi, fun j hj => (h.custody hp).unique hj hi⟩
    · exact .inr ⟨(h.reset h0).1, fun i hi => h0 ((h.custody hp).booked hi).2⟩

/-- A borrow that nobody is given comes of a constructor that throws. -/
theorem nobody_of_step {w w' : World ε} {a : Action ε} {b : Borrow} (hstep : Step w a w')
    (hb : w'.Acquired b .nobody) :
    w.Acquired b .nobody ∨ ∃ i setup k what, a = .enter i (.withAsync setup) (some k) ∧
      setupConnection (w.links k).status setup = .error what := by
  have hhand {i k : ℕ} {owner : Owner} {c : Capability} (hne : owner ≠ .nobody)
      (hb : (w.hand i k owner c).Acquired b .nobody) : w.Acquired b .nobody :=
    ((acquired_acquire w k owner .nobody b).mp hb).resolve_right fun h => hne h.2.symm
  cases hstep with
  | same => exact .inl hb
  | command a conn c fate hd => exact .inl ((acquired_pqExec w none conn _ fate b .nobody).mp hb)
  | control hc hi hs => exact .inl ((acquired_control ..).mp hb)
  | handed hl hc => exact .inl (hhand hc.owner_ne hb)
  | thrown hl hs => exact .inr ⟨_, _, _, _, rfl, hs⟩
  | autoDeclined hl => exact .inl (hhand (by decide) ((acquired_destroy ..).mp hb))
  | autoBegun hl => exact .inl (hhand (by decide) ((acquired_control ..).mp hb))
  | autoFailed hl htx hs =>
      exact .inl (hhand (by decide) ((acquired_control ..).mp ((acquired_destroy ..).mp hb)))
  | moveConstructed hi hj => exact .inl hb
  | moveAssigned hi hj hclass hij => exact .inl ((acquired_letGo ..).mp hb)
  | destroyed hi => exact .inl ((acquired_destroy ..).mp hb)
  | broke k => exact .inl hb
  | poolGone => exact .inl hb

theorem poolAlive_of_step {w w' : World ε} {a : Action ε} (hstep : Step w a w')
    (hp : w'.poolAlive = true) : w.poolAlive = true := by
  cases hstep with
  | same => exact hp
  | command a conn c fate hd => exact (pqExec_poolAlive w none conn _ fate).symm.trans hp
  | control hc hi hs => exact (pqExec_poolAlive ..).symm.trans hp
  | handed hl hc => exact hl.alive
  | thrown hl hs => exact hl.alive
  | autoDeclined hl => exact hl.alive
  | autoBegun hl => exact hl.alive
  | autoFailed hl htx hs => exact hl.alive
  | moveConstructed hi hj => exact hp
  | moveAssigned hi hj hclass hij => exact (letGo_poolAlive ..).symm.trans hp
  | @destroyed i c fate hi =>
      rw [destroy_eq] at hp
      exact ((safetyNet_poolAlive w c fate).symm.trans (letGo_poolAlive ..).symm).trans hp
  | broke k => exact hp
  | poolGone => cases hp

theorem accounted_step {w w' : World ε} {a : Action ε} (h : Sound w) (hP : Accounted w)
    (hstep : step w a = some w') : Accounted w' ↔ SetsUp w a := by
  have hcases := step_cases hstep
  rw [(sound_step h hcases).accounted_iff]
  rw [h.accounted_iff] at hP
  constructor
  · intro hno
    unfold SetsUp
    split
    · rename_i i setup k
      cases hs : setupConnection (w.links k).status setup with
      | ok fd => exact ⟨fd, rfl⟩
      | error what =>
          -- the call throws with the borrow on the books
          simp only [step] at hstep
          split at hstep
          · cases hstep
          · cases ‹some k = none›
          · rename_i k' hi hk'
            obtain rfl := Option.some.inj hk'
            split_ifs at hstep with hl
            obtain rfl := Option.some.inj hstep
            have henter : w.enter i k (.withAsync setup) = w.acquire k .nobody := by
              simp [World.enter, hs]
            rw [henter] at hno
            refine absurd ?_ (hno hl.1 (w.next k))
            exact (acquired_acquire w k .nobody .nobody _).mpr (.inr ⟨rfl, rfl⟩)
    · trivial
  · intro hsets hp b hb
    rcases nobody_of_step hcases hb with hb | ⟨i, setup, k, what, rfl, hs⟩
    · exact hP (poolAlive_of_step hcases hp) b hb
    · obtain ⟨fd, hfd⟩ := hsets
      rw [hs] at hfd
      cases hfd

/-- No entry point loses a connection, and every connection it hands out is
returned exactly once, in exactly those runs in which no constructor of an
`AsyncExecutor` throws. -/
theorem accounted_iff_setsUp {as : List (Action ε)} {w : World ε}
    (h : run step start as = some w) :
    (Always step Accounted start as ↔ Guarded step SetsUp start as) ∧
      (Guarded step SetsUp start as → w.poolAlive = true → (∀ i, w.objects i = none) →
        ∀ b owner, w.Acquired b owner → w.resets b = 1) := by
  have hiff : Always step Accounted start as ↔ Guarded step SetsUp start as :=
    always_iff_guarded .start (fun _ _ _ hs hstep => sound_step hs (step_cases hstep))
      (fun _ b owner hb => absurd hb List.not_mem_nil)
      (fun _ _ _ hs hP hstep => accounted_step hs hP hstep) h
  refine ⟨hiff, fun hg hp hnone b owner hb => ?_⟩
  rcases hiff.mpr hg as List.prefix_rfl w h hp b owner hb with ⟨-, i, ⟨c, hc, -⟩, -⟩ | ⟨h1, -⟩
  · rw [hnone i] at hc
    cases hc
  · exact h1

/-- An `AsyncExecutor` is moved, and then both objects are destroyed. -/
def movedAsync : List (Action ℕ) :=
  [.enter 0 (.withAsync ⟨true, 5, .ok (), ""⟩) (some 0), .moveConstruct 0 1,
    .destroy 0 (.unsent ""), .destroy 1 (.unsent "")]

theorem accounted_movedAsync :
    ∃ w : World ℕ, run step start movedAsync = some w ∧ Guarded step SetsUp start movedAsync ∧
      Always step Accounted start movedAsync ∧ w.poolAlive = true ∧ (∀ i, w.objects i = none) ∧
      w.Acquired ⟨0, 0⟩ .executor ∧ w.resets ⟨0, 0⟩ = 1 := by
  have hg : Guarded step SetsUp start movedAsync := by
    refine (guarded_cons rfl).mpr ⟨⟨5, rfl⟩, ?_⟩
    iterate 3 refine (guarded_cons rfl).mpr ⟨trivial, ?_⟩
    exact guarded_nil _ _
  obtain ⟨hiff, honce⟩ := accounted_iff_setsUp (rfl : run step start movedAsync = some _)
  refine ⟨_, rfl, hg, hiff.mpr hg, rfl, fun i => ?_, List.mem_cons_self, ?_⟩
  · rcases i with _ | _ | i <;> rfl
  · refine honce hg rfl (fun i => ?_) _ .executor List.mem_cons_self
    rcases i with _ | _ | i <;> rfl

/-- The connection has died in the pool, and `with_async` finds that out when it
has borrowed it: no object is there, and the connection is still lent. -/
theorem diedIdle_lost :
    ∃ w : World ℕ, run step start
        [.breakLink 0, .enter 0 (.withAsync ⟨true, 5, .ok (), "terminated"⟩) (some 0)] = some w ∧
      w.poolAlive = true ∧ (∀ i, w.objects i = none) ∧ w.Acquired ⟨0, 0⟩ .nobody ∧
      w.resets ⟨0, 0⟩ = 0 ∧ w.lent 0 = true ∧ ¬ Accounted w := by
  refine ⟨_, rfl, rfl, fun _ => rfl, List.mem_singleton.mpr rfl, rfl, rfl, fun hacc => ?_⟩
  rcases hacc rfl ⟨0, 0⟩ .nobody (List.mem_singleton.mpr rfl) with ⟨-, i, ⟨c, hc, -⟩, -⟩ | ⟨h1, -⟩
  · cases hc
  · cases h1

end Demiplane.Postgres.Capabilities

import Mathlib.Data.Int.Init
import Mathlib.Data.List.Basic
import Mathlib.Data.List.Nodup
import Mathlib.Data.List.Range
import Mathlib.Tactic.Common
import Demiplane.Transition.Run

/-!
The claim/publish protocol of a bounded ring, without the ring: sequences are
integers, a sequence is claimed by somebody, written, published, processed,
marked and finally released, and the capacity `B` says how far the claims may
run ahead of what has been released. There are no slots, no flags and no
program counters here. An implementation is right when the events it emits are
a run of this machine.

What the protocol is for is `Delivery`, a property of a list of events alone:
the claims partition an initial segment, the processing goes through that
segment in order, each sequence is processed with the value its claimer wrote,
and nothing is written that would need the room of a sequence not yet
processed. `delivery_of_run` proves it for every run of the machine.
-/

namespace Demiplane.RingProtocol

open Transition

variable {P α : Type*}

/-- What the parties of the protocol do, `P` naming the claiming parties. -/
inductive Event (P α : Type*) where
  | claim (p : P) (lo hi : ℤ)
  | write (p : P) (s : ℤ) (v : α)
  | publish (p : P) (s : ℤ)
  | process (s : ℤ) (v : α)
  | mark (s : ℤ)
  | release (s : ℤ)

/-- The ranges claimed, in the order of the claims. -/
def claims : List (Event P α) → List (ℤ × ℤ)
  | [] => []
  | .claim _ lo hi :: es => (lo, hi) :: claims es
  | _ :: es => claims es

/-- The sequences processed with their values, in the order of processing. -/
def processes : List (Event P α) → List (ℤ × α)
  | [] => []
  | .process s v :: es => (s, v) :: processes es
  | _ :: es => processes es

@[simp] theorem claims_append (es fs : List (Event P α)) :
    claims (es ++ fs) = claims es ++ claims fs := by
  induction es with
  | nil => rfl
  | cons e es ih => cases e <;> simp [claims, ih]

@[simp] theorem processes_append (es fs : List (Event P α)) :
    processes (es ++ fs) = processes es ++ processes fs := by
  induction es with
  | nil => rfl
  | cons e es ih => cases e <;> simp [processes, ih]

variable {es : List (Event P α)}

theorem mem_claims {lo hi : ℤ} :
    (lo, hi) ∈ claims es ↔ ∃ p, Event.claim p lo hi ∈ es := by
  induction es with
  | nil => simp [claims]
  | cons e es ih => cases e <;> simp [claims, ih, exists_or, eq_comm]

theorem mem_processes {s : ℤ} {v : α} :
    (s, v) ∈ processes es ↔ Event.process s v ∈ es := by
  induction es with
  | nil => simp [processes]
  | cons e es ih => cases e <;> simp [processes, ih]

/-- The sequences from `lo` to `hi` inclusive. -/
def span (lo hi : ℤ) : List ℤ := (List.range (hi + 1 - lo).toNat).map fun k : ℕ => lo + (k : ℤ)

@[simp] theorem span_neg_one : span 0 (-1) = [] := rfl

@[simp] theorem span_self (s : ℤ) : span s s = [s] := by
  have hn : (s + 1 - s).toNat = 1 := by omega
  rw [span, hn]
  simp

theorem span_succ {lo hi : ℤ} (h : lo ≤ hi + 1) :
    span lo (hi + 1) = span lo hi ++ [hi + 1] := by
  have hn : (hi + 1 + 1 - lo).toNat = (hi + 1 - lo).toNat + 1 := by omega
  simp only [span, hn, List.range_succ, List.map_append, List.map_singleton]
  congr 2
  omega

theorem mem_span {lo hi s : ℤ} : s ∈ span lo hi ↔ lo ≤ s ∧ s ≤ hi := by
  simp only [span, List.mem_map, List.mem_range]
  constructor
  · rintro ⟨k, hk, rfl⟩
    omega
  · rintro ⟨h0, hn⟩
    exact ⟨(s - lo).toNat, by omega, by omega⟩

theorem pairwise_span (lo hi : ℤ) : (span lo hi).Pairwise (· < ·) := by
  rw [span, List.pairwise_map]
  refine List.pairwise_lt_range.imp fun hab => ?_
  omega

theorem nodup_span (lo hi : ℤ) : (span lo hi).Nodup :=
  (pairwise_span lo hi).imp Int.ne_of_lt

theorem filter_span {lo n hi : ℤ} (hlo : lo ≤ n + 1) (h : n ≤ hi) :
    (span lo hi).filter (· ≤ n) = span lo n := by
  induction hi, h using Int.leInduction with
  | base =>
      refine List.filter_eq_self.mpr fun s hs => ?_
      simpa using (mem_span.mp hs).2
  | succ hi h ih =>
      rw [span_succ (by omega), List.filter_append, ih, List.filter_singleton]
      simp [show ¬ hi + 1 ≤ n by omega]

/-- Delivery through a ring of capacity `B` whose claims reach up to
`cursor`. -/
structure Delivery (B cursor : ℤ) (es : List (Event P α)) : Prop where
  /-- No two claimed ranges meet. -/
  disjoint : (claims es).Pairwise fun a b => ∀ s, a.1 ≤ s → s ≤ a.2 → ¬ (b.1 ≤ s ∧ s ≤ b.2)
  /-- Together the claimed ranges are `0 .. cursor`. -/
  covered : ∀ s, (∃ r ∈ claims es, r.1 ≤ s ∧ s ≤ r.2) ↔ 0 ≤ s ∧ s ≤ cursor
  /-- The processed sequences are `0, 1, 2, ..` in this order. -/
  inOrder : ∃ n, n ≤ cursor ∧ (processes es).map Prod.fst = span 0 n
  /-- A sequence is processed with the value that its claimer, and nobody
  else, has written before. -/
  faithful : ∀ pre post s v, es = pre ++ .process s v :: post →
    ∃ p lo hi, .claim p lo hi ∈ pre ∧ lo ≤ s ∧ s ≤ hi ∧ .write p s v ∈ pre ∧
      ∀ q w, .write q s w ∈ es → q = p ∧ w = v
  /-- A sequence is written only after the one that is `B` behind it has been
  processed. -/
  noOverwrite : ∀ pre post p s v, es = pre ++ .write p s v :: post →
    0 ≤ s - B → ∃ w, .process (s - B) w ∈ pre

/-- Where the protocol stands. -/
structure State (P α : Type*) where
  cursor : ℤ
  owner : ℤ → Option P
  cell : ℤ → Option α
  published : ℤ → Bool
  processed : ℤ
  marked : ℤ
  released : ℤ

def init : State P α where
  cursor := -1
  owner _ := none
  cell _ := none
  published _ := false
  processed := -1
  marked := -1
  released := -1

/-- When an event is allowed. -/
def Enabled (B : ℤ) (d : State P α) : Event P α → Prop
  | .claim _ lo hi => lo = d.cursor + 1 ∧ lo ≤ hi ∧ hi ≤ d.released + B
  | .write p s _ => d.owner s = some p ∧ d.cell s = none
  | .publish p s => d.owner s = some p ∧ d.cell s ≠ none ∧ d.published s = false
  | .process s v => s = d.processed + 1 ∧ d.published s = true ∧ d.cell s = some v
  | .mark s => s = d.marked + 1 ∧ s ≤ d.processed
  | .release s => d.released ≤ s ∧ s ≤ d.marked

/-- What an event does. -/
def apply (d : State P α) : Event P α → State P α
  | .claim p lo hi =>
      { d with
        cursor := hi
        owner := fun s => if lo ≤ s ∧ s ≤ hi then some p else d.owner s }
  | .write _ s v => { d with cell := Function.update d.cell s (some v) }
  | .publish _ s => { d with published := Function.update d.published s true }
  | .process s _ => { d with processed := s }
  | .mark s => { d with marked := s }
  | .release s => { d with released := s }

open Classical in
noncomputable def step (B : ℤ) (d : State P α) (e : Event P α) : Option (State P α) :=
  if Enabled B d e then some (apply d e) else none

theorem step_eq_some {B : ℤ} {d d' : State P α} {e : Event P α} :
    step B d e = some d' ↔ Enabled B d e ∧ apply d e = d' := by
  simp [step]

theorem run_singleton {B : ℤ} {d : State P α} {e : Event P α} (h : Enabled B d e) :
    run (step B) d [e] = some (apply d e) := by
  simp [run, step_eq_some.mpr ⟨h, rfl⟩]

/-- The numbers and maps of a state fit together. -/
structure WellFormed (B : ℤ) (d : State P α) : Prop where
  released_ge : -1 ≤ d.released
  released_le : d.released ≤ d.marked
  marked_le : d.marked ≤ d.processed
  processed_le : d.processed ≤ d.cursor
  cursor_le : d.cursor ≤ d.released + B
  owned : ∀ s, (∃ p, d.owner s = some p) ↔ 0 ≤ s ∧ s ≤ d.cursor
  cell_owned : ∀ s, d.cell s ≠ none → ∃ p, d.owner s = some p
  published_cell : ∀ s, d.published s = true → d.cell s ≠ none
  processed_published : ∀ s, 0 ≤ s → s ≤ d.processed → d.published s = true

theorem wellFormed_init {B : ℤ} (hB : 0 ≤ B) : WellFormed B (init : State P α) where
  released_ge := by simp [init]
  released_le := by simp [init]
  marked_le := by simp [init]
  processed_le := by simp [init]
  cursor_le := by simp [init]; omega
  owned s := by simp [init]; omega
  cell_owned s h := by simp [init] at h
  published_cell s h := by simp [init] at h
  processed_published s h0 h := by simp [init] at h; omega

namespace WellFormed

variable {B : ℤ} {d : State P α}

theorem not_published_of_cell (hd : WellFormed B d) {s : ℤ} (h : d.cell s = none) :
    d.published s = false := by
  cases hp : d.published s with
  | false => rfl
  | true => exact absurd h (hd.published_cell s hp)

theorem lt_of_not_published (hd : WellFormed B d) {s : ℤ} (h0 : 0 ≤ s)
    (h : d.published s = false) : d.processed < s := by
  by_contra hle
  have := hd.processed_published s h0 (by omega)
  simp [h] at this

theorem owner_range (hd : WellFormed B d) {s : ℤ} {p : P} (h : d.owner s = some p) :
    0 ≤ s ∧ s ≤ d.cursor :=
  (hd.owned s).mp ⟨p, h⟩

theorem owner_of_gt (hd : WellFormed B d) {s : ℤ} (h : d.cursor < s) :
    d.owner s = none := by
  cases ho : d.owner s with
  | none => rfl
  | some p =>
      have := hd.owner_range ho
      omega

theorem cell_of_gt (hd : WellFormed B d) {s : ℤ} (h : d.cursor < s) :
    d.cell s = none := by
  by_contra hc
  obtain ⟨p, hp⟩ := hd.cell_owned s hc
  have := hd.owner_range hp
  omega

end WellFormed

theorem wellFormed_apply {B : ℤ} {d : State P α} {e : Event P α}
    (hd : WellFormed B d) (hen : Enabled B d e) : WellFormed B (apply d e) := by
  obtain ⟨h1, h2, h3, h4, h5, howned, hcell, hpub, hproc⟩ := hd
  cases e with
  | claim p lo hi =>
      obtain ⟨hlo, hle, hroom⟩ := hen
      refine ⟨h1, h2, h3, by simp only [apply]; omega, hroom, ?_, ?_, hpub, hproc⟩
      · intro s
        simp only [apply]
        by_cases hs : lo ≤ s ∧ s ≤ hi
        · simp only [hs, and_self, if_true]
          exact ⟨fun _ => ⟨by omega, trivial⟩, fun _ => ⟨p, rfl⟩⟩
        · simp only [hs, if_false, howned s]
          omega
      · intro s hs
        simp only [apply]
        split
        · exact ⟨p, rfl⟩
        · exact hcell s hs
  | write p s v =>
      refine ⟨h1, h2, h3, h4, h5, howned, ?_, ?_, hproc⟩
      · intro t ht
        by_cases hts : t = s
        · exact ⟨p, hts ▸ hen.1⟩
        · exact hcell t (by simpa [apply, hts] using ht)
      · intro t ht
        by_cases hts : t = s
        · simp [apply, hts]
        · simpa [apply, hts] using hpub t ht
  | publish p s =>
      refine ⟨h1, h2, h3, h4, h5, howned, hcell, ?_, ?_⟩
      · intro t ht
        by_cases hts : t = s
        · exact hts ▸ hen.2.1
        · exact hpub t (by simpa [apply, hts] using ht)
      · intro t h0 ht
        by_cases hts : t = s
        · simp [apply, hts]
        · simpa [apply, hts] using hproc t h0 ht
  | process s v =>
      obtain ⟨rfl, hs, hv⟩ := hen
      obtain ⟨q, hq⟩ := hcell _ (hpub _ hs)
      have hrange := (howned _).mp ⟨q, hq⟩
      refine ⟨h1, h2, by simp only [apply]; omega, hrange.2, h5, howned, hcell, hpub, ?_⟩
      intro t h0 ht
      by_cases hts : t = d.processed + 1
      · exact hts ▸ hs
      · simp only [apply] at ht
        exact hproc t h0 (by omega)
  | mark s =>
      obtain ⟨rfl, hs⟩ := hen
      exact ⟨h1, by simp only [apply]; omega, hs, h4, h5, howned, hcell, hpub, hproc⟩
  | release s =>
      obtain ⟨hlo, hhi⟩ := hen
      exact ⟨by simp only [apply]; omega, hhi, h3, h4, by simp only [apply]; omega,
        howned, hcell, hpub, hproc⟩

/-- The state remembers the events: who claimed, what was written and how far
the processing has come can be read off either. -/
structure Recorded (d : State P α) (es : List (Event P α)) : Prop where
  claimed : ∀ p s, d.owner s = some p ↔
    ∃ lo hi, Event.claim p lo hi ∈ es ∧ lo ≤ s ∧ s ≤ hi
  below : ∀ r ∈ claims es, r.2 ≤ d.cursor
  ordered : (claims es).Pairwise fun a b => a.2 < b.1
  written : ∀ p s v, Event.write p s v ∈ es ↔ d.owner s = some p ∧ d.cell s = some v
  processed : (processes es).map Prod.fst = span 0 d.processed

theorem recorded_init : Recorded (init : State P α) [] where
  claimed p s := by simp [init]
  below r hr := by simp [claims] at hr
  ordered := by simp [claims]
  written p s v := by simp [init]
  processed := by simp [processes, init]

theorem recorded_apply {B : ℤ} {d : State P α} {e : Event P α}
    (hd : WellFormed B d) (hr : Recorded d es) (hen : Enabled B d e) :
    Recorded (apply d e) (es ++ [e]) := by
  obtain ⟨hclaimed, hbelow, hordered, hwritten, hprocessed⟩ := hr
  cases e with
  | claim p lo hi =>
      obtain ⟨hlo, hle, hroom⟩ := hen
      refine ⟨?_, ?_, ?_, ?_, by simpa [processes, apply] using hprocessed⟩
      · intro q s
        simp only [apply, List.mem_append, List.mem_singleton, Event.claim.injEq]
        by_cases hs : lo ≤ s ∧ s ≤ hi
        · -- nobody owned `s` before, so only the new claim can account for it
          have hnone := hd.owner_of_gt (s := s) (by omega)
          simp only [hs, and_self, if_true, Option.some.injEq]
          constructor
          · rintro rfl
            exact ⟨lo, hi, .inr ⟨rfl, rfl, rfl⟩, hs⟩
          · rintro ⟨l, r, hmem | ⟨rfl, -, -⟩, hl, hr⟩
            · have := (hclaimed q s).mpr ⟨l, r, hmem, hl, hr⟩
              simp [hnone] at this
            · rfl
        · simp only [hs, if_false, hclaimed q s]
          constructor
          · rintro ⟨l, r, hmem, hlr⟩
            exact ⟨l, r, .inl hmem, hlr⟩
          · rintro ⟨l, r, hmem | ⟨-, rfl, rfl⟩, hlr⟩
            · exact ⟨l, r, hmem, hlr⟩
            · exact absurd hlr hs
      · intro r hr
        simp only [claims_append, claims, List.mem_append, List.mem_singleton] at hr
        simp only [apply]
        rcases hr with hr | rfl
        · have := hbelow r hr
          omega
        · simp
      · simp only [claims_append, claims, List.pairwise_append, List.pairwise_singleton,
          true_and, List.mem_singleton]
        refine ⟨hordered, ?_⟩
        rintro a ha b rfl
        have := hbelow a ha
        simp only
        omega
      · intro q s v
        simp only [apply, List.mem_append, List.mem_singleton, reduceCtorEq, or_false,
          hwritten q s v]
        by_cases hs : lo ≤ s ∧ s ≤ hi
        · have hnone := hd.owner_of_gt (s := s) (by omega)
          have hcell := hd.cell_of_gt (s := s) (by omega)
          simp [hnone, hcell]
        · simp [hs]
  | write p s v =>
      refine ⟨by simpa [apply] using hclaimed, by simpa [claims, apply] using hbelow,
        by simpa [claims] using hordered, ?_, by simpa [processes, apply] using hprocessed⟩
      intro q t w
      simp only [apply, List.mem_append, List.mem_singleton, Event.write.injEq, hwritten q t w]
      by_cases hts : t = s
      · subst hts
        simp only [hen.1, hen.2, Function.update_self, Option.some.injEq, reduceCtorEq,
          and_false, false_or, true_and]
        exact ⟨fun ⟨hq, hw⟩ => ⟨hq.symm, hw.symm⟩, fun ⟨hq, hw⟩ => ⟨hq.symm, hw.symm⟩⟩
      · simp [hts]
  | publish p s =>
      exact ⟨by simpa [apply] using hclaimed, by simpa [claims, apply] using hbelow,
        by simpa [claims] using hordered, by simpa [apply] using hwritten,
        by simpa [processes, apply] using hprocessed⟩
  | process s v =>
      obtain ⟨rfl, -, -⟩ := hen
      have hge : 0 ≤ d.processed + 1 := by
        have := hd.released_ge
        have := hd.released_le
        have := hd.marked_le
        omega
      refine ⟨by simpa [apply] using hclaimed, by simpa [claims, apply] using hbelow,
        by simpa [claims] using hordered, by simpa [apply] using hwritten, ?_⟩
      simp [processes, apply, hprocessed, span_succ hge]
  | mark s =>
      exact ⟨by simpa [apply] using hclaimed, by simpa [claims, apply] using hbelow,
        by simpa [claims] using hordered, by simpa [apply] using hwritten,
        by simpa [processes, apply] using hprocessed⟩
  | release s =>
      exact ⟨by simpa [apply] using hclaimed, by simpa [claims, apply] using hbelow,
        by simpa [claims] using hordered, by simpa [apply] using hwritten,
        by simpa [processes, apply] using hprocessed⟩

/-- Every run of the protocol reaches a well-formed state that remembers the
events of the run. -/
theorem invariants_of_run {B : ℤ} (hB : 0 ≤ B) {d : State P α}
    (h : run (step B) init es = some d) : WellFormed B d ∧ Recorded d es := by
  induction es using List.reverseRecOn generalizing d with
  | nil =>
      obtain rfl : init = d := by simpa [run] using h
      exact ⟨wellFormed_init hB, recorded_init⟩
  | append_singleton es e ih =>
      obtain ⟨u, hu, he⟩ := run_snoc.mp h
      obtain ⟨hwf, hrec⟩ := ih hu
      obtain ⟨hen, rfl⟩ := step_eq_some.mp he
      exact ⟨wellFormed_apply hwf hen, recorded_apply hwf hrec hen⟩

/-- An event of a run was enabled when it happened. -/
theorem enabled_of_run {B : ℤ} {d₀ d : State P α} {pre post : List (Event P α)}
    {e : Event P α} (h : run (step B) d₀ (pre ++ e :: post) = some d) :
    ∃ u, run (step B) d₀ pre = some u ∧ Enabled B u e := by
  rw [run_append, Option.bind_eq_some_iff] at h
  obtain ⟨u, hu, h⟩ := h
  simp only [run, Option.bind_eq_some_iff] at h
  obtain ⟨u', hu', -⟩ := h
  exact ⟨u, hu, (step_eq_some.mp hu').1⟩

/-- What a run releases, it releases in growing order: the state at its end has the last of it. -/
theorem released_of_run {B : ℤ} {d d' : State P α}
    (h : run (step B) d es = some d') :
    d.released ≤ d'.released ∧ (∀ s, Event.release s ∈ es → s ≤ d'.released) ∧
      (d'.released = d.released ∨ Event.release d'.released ∈ es) := by
  induction es using List.reverseRecOn generalizing d' with
  | nil =>
      obtain rfl : d = d' := by simpa [run] using h
      exact ⟨Int.le_refl _, by simp, .inl rfl⟩
  | append_singleton es e ih =>
      obtain ⟨u, hu, he⟩ := run_snoc.mp h
      obtain ⟨hen, rfl⟩ := step_eq_some.mp he
      obtain ⟨hle, hall, hlast⟩ := ih hu
      have hkeep (hsame : (apply u e).released = u.released) (hne : ∀ s, e ≠ .release s) :
          d.released ≤ (apply u e).released ∧
            (∀ s, Event.release s ∈ es ++ [e] → s ≤ (apply u e).released) ∧
            ((apply u e).released = d.released ∨
              Event.release (apply u e).released ∈ es ++ [e]) := by
        rw [hsame]
        refine ⟨hle, fun s hs => hall s ?_, hlast.imp_right (List.mem_append_left _)⟩
        exact (List.mem_append.mp hs).resolve_right
          fun hs => hne s (List.mem_singleton.mp hs).symm
      cases e with
      | release t =>
          have hle' : d.released ≤ t := Int.le_trans hle hen.1
          refine ⟨hle', fun s hs => ?_, .inr (List.mem_append_right _ List.mem_cons_self)⟩
          rcases List.mem_append.mp hs with hs | hs
          · exact Int.le_trans (hall s hs) hen.1
          · cases List.mem_singleton.mp hs
            exact Int.le_refl t
      | claim p lo hi => exact hkeep rfl (by simp)
      | write p t v => exact hkeep rfl (by simp)
      | publish p t => exact hkeep rfl (by simp)
      | process t v => exact hkeep rfl (by simp)
      | mark t => exact hkeep rfl (by simp)

theorem delivery_of_run {B : ℤ} (hB : 0 ≤ B) {d : State P α}
    (h : run (step B) init es = some d) : Delivery B d.cursor es := by
  obtain ⟨hwf, hrec⟩ := invariants_of_run hB h
  refine ⟨?_, ?_, ⟨d.processed, hwf.processed_le, hrec.processed⟩, ?_, ?_⟩
  · refine hrec.ordered.imp ?_
    intro a b hab s _ hs hb
    omega
  · intro s
    rw [← hwf.owned s]
    constructor
    · rintro ⟨⟨lo, hi⟩, hr, hs⟩
      obtain ⟨p, hp⟩ := mem_claims.mp hr
      exact ⟨p, (hrec.claimed p s).mpr ⟨lo, hi, hp, hs⟩⟩
    · rintro ⟨p, hp⟩
      obtain ⟨lo, hi, hmem, hs⟩ := (hrec.claimed p s).mp hp
      exact ⟨(lo, hi), mem_claims.mpr ⟨p, hmem⟩, hs⟩
  · rintro pre post s v rfl
    obtain ⟨u, hu, rfl, hpub, hcell⟩ := enabled_of_run h
    obtain ⟨hwfu, hrecu⟩ := invariants_of_run hB hu
    obtain ⟨p, hp⟩ := hwfu.cell_owned _ (hwfu.published_cell _ hpub)
    obtain ⟨lo, hi, hclaim, hlo, hhi⟩ := (hrecu.claimed p _).mp hp
    have hwrite := (hrecu.written p _ v).mpr ⟨hp, hcell⟩
    refine ⟨p, lo, hi, hclaim, hlo, hhi, hwrite, ?_⟩
    -- both writes are recorded in the final state, which has one cell for `s`
    intro q w hq
    have h₁ := (hrec.written p _ v).mp (List.mem_append_left _ hwrite)
    have h₂ := (hrec.written q _ w).mp hq
    rw [h₁.1] at h₂
    rw [h₁.2] at h₂
    exact ⟨(Option.some.inj h₂.1).symm, (Option.some.inj h₂.2).symm⟩
  · rintro pre post p s v rfl h0
    obtain ⟨u, hu, howner, hcell⟩ := enabled_of_run h
    obtain ⟨hwfu, hrecu⟩ := invariants_of_run hB hu
    have hrange := hwfu.owner_range howner
    have hroom := hwfu.cursor_le
    have hrel := hwfu.released_le
    have hmark := hwfu.marked_le
    have hmem : s - B ∈ (processes pre).map Prod.fst := by
      rw [hrecu.processed, mem_span]
      exact ⟨h0, by omega⟩
    obtain ⟨⟨t, w⟩, htw, rfl⟩ := List.mem_map.mp hmem
    exact ⟨w, mem_processes.mp htw⟩

end Demiplane.RingProtocol

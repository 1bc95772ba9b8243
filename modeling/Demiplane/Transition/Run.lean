import Mathlib.Data.List.Basic
import Mathlib.Data.List.Infix
import Mathlib.Data.Nat.Find

/-!
Runs of a partial step function. A concurrent program is modelled by a state,
a type of actions naming which thread moves and how its free choices fall, and
a step function that is undefined where the action is not enabled. A run is
then a list of actions, and "every interleaving" is "every list of actions
that runs".

`history` keeps, for every action of a run, the state it was taken in. That is
what a condition on the steps of a run is stated over, and `trace` reads the
visible events off it. The two induction rules say once how an invariant
travels along a run; `always_iff_guarded` is the rule for a property that each
step keeps exactly under a guard. A run that does not end is a sequence of
states and actions, and `finitely_often` is the rule for the steps that a
measure allows only finitely many of.
-/

namespace Demiplane.Transition

variable {σ α ε : Type*}

/-- Execute the actions in order; `none` as soon as one is not enabled. -/
def run (step : σ → α → Option σ) : σ → List α → Option σ
  | s, [] => some s
  | s, a :: as => (step s a).bind fun t => run step t as

/-- The actions of a run, each with the state it was taken in. -/
def history (step : σ → α → Option σ) : σ → List α → List (σ × α)
  | _, [] => []
  | s, a :: as => (s, a) :: (step s a).elim [] fun t => history step t as

/-- The events of a run, in order. -/
def trace (step : σ → α → Option σ) (emit : σ → α → List ε) (s : σ)
    (as : List α) : List ε :=
  (history step s as).flatMap fun p => emit p.1 p.2

variable {step : σ → α → Option σ}

attribute [local simp] run history

theorem run_append (s : σ) (as bs : List α) :
    run step s (as ++ bs) = (run step s as).bind fun t => run step t bs := by
  induction as generalizing s with
  | nil => rfl
  | cons a as ih => simp [ih, Option.bind_assoc]

variable {as : List α}

theorem run_snoc {s t : σ} {a : α} :
    run step s (as ++ [a]) = some t ↔
      ∃ u, run step s as = some u ∧ step u a = some t := by
  simp [run_append, Option.bind_eq_some_iff]

theorem history_snoc {s u : σ} (a : α)
    (h : run step s as = some u) :
    history step s (as ++ [a]) = history step s as ++ [(u, a)] := by
  induction as generalizing s with
  | nil =>
      obtain rfl : s = u := by simpa using h
      cases hs : step s a <;> simp [hs]
  | cons b as ih =>
      simp only [run, Option.bind_eq_some_iff] at h
      obtain ⟨t, ht, h⟩ := h
      simp [ht, ih h]

theorem trace_snoc {s u : σ} (emit : σ → α → List ε) (a : α)
    (h : run step s as = some u) :
    trace step emit s (as ++ [a]) = trace step emit s as ++ emit u a := by
  simp [trace, history_snoc a h]

/-- Induction along a run, the history at hand. -/
theorem history_invariant {I : σ → List (σ × α) → Prop} {s₀ : σ}
    (hinit : I s₀ [])
    (hstep : ∀ s hist a t, I s hist → step s a = some t →
      I t (hist ++ [(s, a)]))
    {s : σ} (h : run step s₀ as = some s) :
    I s (history step s₀ as) := by
  induction as using List.reverseRecOn generalizing s with
  | nil =>
      obtain rfl : s₀ = s := by simpa using h
      exact hinit
  | append_singleton as a ih =>
      obtain ⟨u, hu, ha⟩ := run_snoc.mp h
      rw [history_snoc a hu]
      exact hstep u _ a s (ih hu) ha

/-- Induction along a run, the trace at hand. -/
theorem trace_invariant (emit : σ → α → List ε)
    {I : σ → List ε → Prop} {s₀ : σ} (hinit : I s₀ [])
    (hstep : ∀ s tr a t, I s tr → step s a = some t → I t (tr ++ emit s a))
    {s : σ} (h : run step s₀ as = some s) :
    I s (trace step emit s₀ as) := by
  have hinv := history_invariant (I := fun s hist => I s (hist.flatMap fun p => emit p.1 p.2)) hinit
    (fun s hist a t hi ha => by simpa using hstep s _ a t hi ha) h
  exact hinv

/-- An event of `tr ++ us` is an event of `tr` or of `us`. -/
theorem split_of_append {tr us pre post : List ε} {e : ε} (h : tr ++ us = pre ++ e :: post) :
    (∃ mid, tr = pre ++ e :: mid) ∨ ∃ us₁ us₂, us = us₁ ++ e :: us₂ ∧ pre = tr ++ us₁ := by
  rcases List.append_eq_append_iff.mp h with ⟨us₁, hpre, hus⟩ | ⟨cs, htr, hcs⟩
  · exact .inr ⟨us₁, post, hus, hpre⟩
  · cases cs with
    | nil => exact .inr ⟨[], post, hcs.symm, by simpa using htr.symm⟩
    | cons c cs =>
        obtain ⟨rfl, -⟩ := List.cons.inj hcs
        exact .inl ⟨cs, htr⟩

/-- Every event of a trace was emitted by a step of the run, after a run that
emitted what comes before. -/
theorem trace_split {emit : σ → α → List ε} {s₀ s : σ}
    (h : run step s₀ as = some s) {pre post : List ε} {e : ε}
    (htr : trace step emit s₀ as = pre ++ e :: post) :
    ∃ as₁ u a us vs, run step s₀ as₁ = some u ∧ (u, a) ∈ history step s₀ as ∧
      emit u a = us ++ e :: vs ∧ pre = trace step emit s₀ as₁ ++ us := by
  induction as using List.reverseRecOn generalizing s post with
  | nil => simp [trace] at htr
  | append_singleton as a ih =>
      obtain ⟨u, hu, ha⟩ := run_snoc.mp h
      have hlast : (u, a) ∈ history step s₀ (as ++ [a]) := by simp [history_snoc a hu]
      rw [trace_snoc emit a hu] at htr
      rcases split_of_append htr with ⟨mid, hmid⟩ | ⟨us, vs, hemit, hpre⟩
      · obtain ⟨as₁, u', a', us, vs, hu', hmem, rest⟩ := ih hu hmid
        refine ⟨as₁, u', a', us, vs, hu', ?_, rest⟩
        rw [history_snoc a hu]
        exact List.mem_append_left _ hmem
      · exact ⟨as, u, a, us, vs, hu, hlast, hemit, hpre⟩

/-- Induction along a run, the state alone at hand. -/
theorem run_invariant {I : σ → Prop} {s₀ : σ} (hinit : I s₀)
    (hstep : ∀ s a t, I s → step s a = some t → I t)
    {s : σ} (h : run step s₀ as = some s) : I s :=
  history_invariant (I := fun s _ => I s) hinit
    (fun s _ a t hi ha => hstep s a t hi ha) h

/-- Forward simulation with events: if every concrete step is matched by an
abstract run of the events it emits, the trace of a concrete run is an
abstract run. -/
theorem simulation {τ : Type*} {astep : τ → ε → Option τ}
    {emit : σ → α → List ε} {R : σ → τ → Prop} {s₀ : σ} {t₀ : τ}
    (hinit : R s₀ t₀)
    (hstep : ∀ s a s' t, R s t → step s a = some s' →
      ∃ t', run astep t (emit s a) = some t' ∧ R s' t')
    {s : σ} (h : run step s₀ as = some s) :
    ∃ t, run astep t₀ (trace step emit s₀ as) = some t ∧ R s t := by
  refine trace_invariant emit
    (I := fun s tr => ∃ t, run astep t₀ tr = some t ∧ R s t)
    ⟨t₀, rfl, hinit⟩ ?_ h
  rintro s tr a s' ⟨t, ht, hR⟩ ha
  obtain ⟨t', ht', hR'⟩ := hstep s a s' t hR ha
  exact ⟨t', by simp [run_append, ht, ht'], hR'⟩

/-- Every step of the run meets `Guard` in the state it is taken in. -/
def Guarded (step : σ → α → Option σ) (Guard : σ → α → Prop) (s : σ)
    (as : List α) : Prop :=
  ∀ p ∈ history step s as, Guard p.1 p.2

instance (Guard : σ → α → Prop) [∀ s a, Decidable (Guard s a)] (s : σ) (as : List α) :
    Decidable (Guarded step Guard s as) :=
  inferInstanceAs (Decidable (∀ p ∈ history step s as, Guard p.1 p.2))

/-- Where an invariant of guarded runs makes the guard imply another, every step
of a guarded run meets that one too. -/
theorem Guarded.mono {I : σ → Prop} {Guard Guard' : σ → α → Prop} {s₀ : σ}
    (hg : Guarded step Guard s₀ as) (hinit : I s₀)
    (hstep : ∀ s a t, I s → Guard s a → step s a = some t → I t)
    (himp : ∀ s a, I s → Guard s a → Guard' s a) : Guarded step Guard' s₀ as := by
  induction as generalizing s₀ with
  | nil => simp [Guarded]
  | cons a as ih =>
      have hga : Guard s₀ a := hg (s₀, a) (by simp)
      intro p hp
      rw [history, List.mem_cons] at hp
      rcases hp with rfl | hp
      · exact himp s₀ a hinit hga
      · cases ht : step s₀ a with
        | none => simp [ht] at hp
        | some t =>
            have htail : Guarded step Guard t as := fun q hq => hg q (by simp [ht, hq])
            exact ih htail (hstep s₀ a t hinit hga ht) p (by simpa [ht] using hp)

/-- Every state the run passes through satisfies `P`. -/
def Always (step : σ → α → Option σ) (P : σ → Prop) (s : σ) (as : List α) :
    Prop :=
  ∀ pre, pre <+: as → ∀ t, run step s pre = some t → P t

theorem guarded_nil (Guard : σ → α → Prop) (s : σ) : Guarded step Guard s [] :=
  fun _ hp => absurd hp List.not_mem_nil

theorem snd_mem_of_mem_history {s : σ} {p : σ × α}
    (h : p ∈ history step s as) : p.2 ∈ as := by
  induction as generalizing s with
  | nil => simp at h
  | cons a as ih =>
      rw [history, List.mem_cons] at h
      rcases h with rfl | h
      · exact List.mem_cons_self
      · cases hs : step s a with
        | none => simp [hs] at h
        | some t => exact List.mem_cons_of_mem a (ih (by simpa [hs] using h))

variable {Guard : σ → α → Prop}

/-- A guard that asks nothing of the states. -/
theorem guarded_of_forall {s : σ}
    (h : ∀ a ∈ as, ∀ s, Guard s a) : Guarded step Guard s as :=
  fun p hp => h p.2 (snd_mem_of_mem_history hp) p.1

theorem always_nil {P : σ → Prop} {s : σ} (h : P s) : Always step P s [] := by
  intro pre hp t ht
  obtain rfl := List.prefix_nil.mp hp
  obtain rfl : s = t := by simpa using ht
  exact h

theorem guarded_cons {s t : σ} {a : α}
    (h : step s a = some t) :
    Guarded step Guard s (a :: as) ↔ Guard s a ∧ Guarded step Guard t as := by
  simp [Guarded, h]

theorem guarded_snoc {s u : σ} {a : α}
    (h : run step s as = some u) :
    Guarded step Guard s (as ++ [a]) ↔ Guarded step Guard s as ∧ Guard u a := by
  simp only [Guarded, history_snoc a h, List.mem_append, List.mem_singleton]
  constructor
  · intro hg
    exact ⟨fun p hp => hg p (.inl hp), hg (u, a) (.inr rfl)⟩
  · rintro ⟨hg, ha⟩ p (hp | rfl)
    · exact hg p hp
    · exact ha

theorem always_snoc {P : σ → Prop} {s t : σ} {a : α}
    (h : run step s (as ++ [a]) = some t) :
    Always step P s (as ++ [a]) ↔ Always step P s as ∧ P t := by
  constructor
  · intro hall
    refine ⟨fun pre hp => hall pre (hp.trans (List.prefix_append as [a])), ?_⟩
    exact hall _ List.prefix_rfl t h
  · rintro ⟨hall, ht⟩ pre hp u hu
    rcases List.prefix_concat_iff.mp hp with rfl | hp
    · rw [h] at hu
      exact Option.some.inj hu ▸ ht
    · exact hall pre hp u hu

/-- An invariant that needs a guard on the steps holds at the end of every
guarded run. -/
theorem guarded_invariant {I : σ → List (σ × α) → Prop}
    {s₀ : σ} (hinit : I s₀ [])
    (hstep : ∀ s hist a t, I s hist → Guard s a → step s a = some t →
      I t (hist ++ [(s, a)]))
    {s : σ} (h : run step s₀ as = some s)
    (hg : Guarded step Guard s₀ as) : I s (history step s₀ as) := by
  induction as using List.reverseRecOn generalizing s with
  | nil =>
      obtain rfl : s₀ = s := by simpa using h
      exact hinit
  | append_singleton as a ih =>
      obtain ⟨u, hu, ha⟩ := run_snoc.mp h
      obtain ⟨hg, hga⟩ := (guarded_snoc hu).mp hg
      rw [history_snoc a hu]
      exact hstep u _ a s (ih hu hg) hga ha

/-- A guarded run stays within an invariant, and so within what the invariant
implies. -/
theorem always_of_guarded {I P : σ → Prop} {s₀ : σ}
    (hinit : I s₀)
    (hstep : ∀ s a t, I s → Guard s a → step s a = some t → I t)
    (hP : ∀ s, I s → P s)
    {s : σ} (h : run step s₀ as = some s)
    (hg : Guarded step Guard s₀ as) : Always step P s₀ as := by
  induction as using List.reverseRecOn generalizing s with
  | nil => exact always_nil (hP s₀ hinit)
  | append_singleton as a ih =>
      have hI : I s := guarded_invariant (I := fun s _ => I s) hinit
        (fun s _ a t hi hga ha => hstep s a t hi hga ha) h hg
      obtain ⟨u, hu, ha⟩ := run_snoc.mp h
      rw [always_snoc h]
      exact ⟨ih hu ((guarded_snoc hu).mp hg).1, hP s hI⟩

/-- Where a step out of a good state ends in a good state exactly under the
guard, a run stays good throughout exactly when all its steps are guarded. Out
of a bad state nothing is asked of a step, not even to keep the invariant. -/
theorem always_iff_guarded_of_good {I P : σ → Prop} {s₀ : σ}
    (hinit : I s₀) (hP : P s₀)
    (hstep : ∀ s a t, I s → P s → step s a = some t → (P t ↔ Guard s a) ∧ (P t → I t))
    {s : σ} (h : run step s₀ as = some s) :
    Always step P s₀ as ↔ Guarded step Guard s₀ as := by
  suffices hboth : (Always step P s₀ as ↔ Guarded step Guard s₀ as) ∧
      (Always step P s₀ as → I s) from hboth.1
  induction as using List.reverseRecOn generalizing s with
  | nil =>
      obtain rfl : s₀ = s := by simpa using h
      exact ⟨iff_of_true (always_nil hP) (guarded_nil Guard s₀), fun _ => hinit⟩
  | append_singleton as a ih =>
      obtain ⟨u, hu, ha⟩ := run_snoc.mp h
      obtain ⟨hiff, hinv⟩ := ih hu
      have hgood (hall : Always step P s₀ as) : P u := hall as List.prefix_rfl u hu
      rw [always_snoc h, guarded_snoc hu, ← hiff]
      refine ⟨and_congr_right fun hall => ?_, fun hall => ?_⟩
      · exact (hstep u a s (hinv hall) (hgood hall) ha).1
      · exact (hstep u a s (hinv hall.1) (hgood hall.1) ha).2 hall.2

/-- The same for an invariant that every step keeps. -/
theorem always_iff_guarded {I P : σ → Prop} {s₀ : σ}
    (hinit : I s₀) (hstep : ∀ s a t, I s → step s a = some t → I t)
    (hP : P s₀)
    (hexact : ∀ s a t, I s → P s → step s a = some t → (P t ↔ Guard s a))
    {s : σ} (h : run step s₀ as = some s) :
    Always step P s₀ as ↔ Guarded step Guard s₀ as :=
  always_iff_guarded_of_good hinit hP
    (fun s a t hi hp ha => ⟨hexact s a t hi hp ha, fun _ => hstep s a t hi ha⟩) h

/-! ### Endless runs -/

/-- The run goes on forever, and every step of it satisfies the guard. -/
def Endless (step : σ → α → Option σ) (Guard : σ → α → Prop) (states : ℕ → σ)
    (actions : ℕ → α) : Prop :=
  ∀ n, Guard (states n) (actions n) ∧ step (states n) (actions n) = some (states (n + 1))

theorem Endless.invariant {I : σ → Prop} {states : ℕ → σ}
    {actions : ℕ → α} (h : Endless step Guard states actions) (hinit : I (states 0))
    (hstep : ∀ s a t, I s → Guard s a → step s a = some t → I t) (n : ℕ) : I (states n) := by
  induction n with
  | zero => exact hinit
  | succ n ih => exact hstep _ _ _ ih (h n).1 (h n).2

/-- What a well-founded measure falls at, and stays the same between, ends. -/
theorem finitely_often {μ : Type*} {r : μ → μ → Prop} (hwf : WellFounded r) {m : ℕ → μ}
    {P : ℕ → Prop} {N : ℕ} (hfall : ∀ n ≥ N, P n → r (m (n + 1)) (m n))
    (hkeep : ∀ n ≥ N, ¬ P n → m (n + 1) = m n) : ∃ M, ∀ n ≥ M, ¬ P n := by
  classical
  suffices hfrom : ∀ x, ∀ n ≥ N, m n = x → ∃ M, ∀ k ≥ M, ¬ P k from hfrom _ N le_rfl rfl
  intro x
  induction x using hwf.induction with
  | _ x ih =>
    rintro n hn rfl
    by_cases hnext : ∃ k, n ≤ k ∧ P k
    · have hstay : ∀ k, n ≤ k → k ≤ Nat.find hnext → m k = m n := by
        intro k hk
        induction k, hk using Nat.le_induction with
        | base => exact fun _ => rfl
        | succ k hk ihk =>
          intro hle
          have hnot : ¬ P k := fun hp => Nat.find_min hnext (Nat.lt_of_succ_le hle) ⟨hk, hp⟩
          rw [hkeep k (hn.trans hk) hnot]
          exact ihk (Nat.le_of_succ_le hle)
      obtain ⟨hle, hp⟩ := Nat.find_spec hnext
      have hless := hfall _ (hn.trans hle) hp
      rw [hstay _ hle le_rfl] at hless
      exact ih _ hless _ ((hn.trans hle).trans (Nat.le_succ _)) rfl
    · exact ⟨n, fun k hk hp => hnext ⟨k, hk, hp⟩⟩

end Demiplane.Transition

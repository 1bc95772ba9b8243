import Demiplane.Scroll.Sending

/-!
The consuming side of the logger: what has come out of the ring, what the
consumer knows at each of its program points, and how `running_` and the
markers go together. All of it is stable under what the producers do.

The consumer moves an event out of its slot before it clears the flag of the
slot. Between the two the slot holds what the move left behind, and nobody
reads it: `tracks_residue`.
-/

namespace Demiplane.Scroll

open Disruptor RingProtocol Transition

variable {M : Type*} {d d' : State ℕ (LogEvent M)} {B : ℤ}

/-! ### What comes out of the ring -/

/-- The values of the processed sequences, markers left out. -/
def delivered (d : State ℕ (LogEvent M)) : List (LogEvent M) :=
  ((span 0 d.processed).filterMap d.cell).filter fun v => !v.shutdownSignal

theorem cell_eq_of_processed {p : ℕ}
    (hd : WellFormed B d) (h : Produces p d d') {s : ℤ} (h0 : 0 ≤ s)
    (hs : s ≤ d.processed) : d'.cell s = d.cell s := by
  have hpub := hd.processed_published s h0 hs
  obtain ⟨v, hv⟩ := Option.ne_none_iff_exists'.mp (hd.published_cell s hpub)
  rw [hv, h.cell s v hv]

theorem delivered_produces {p : ℕ}
    (hd : WellFormed B d) (h : Produces p d d') : delivered d' = delivered d := by
  rw [delivered, delivered, h.processed]
  congr 1
  refine List.filterMap_congr fun s hs => ?_
  rw [mem_span] at hs
  exact cell_eq_of_processed hd h hs.1 hs.2

theorem delivered_process {d : State ℕ (LogEvent M)} {s : ℤ} {v : LogEvent M}
    (hd : WellFormed B d) (hen : Enabled B d (.process s v)) :
    delivered (apply d (.process s v)) =
      delivered d ++ if v.shutdownSignal then [] else [v] := by
  obtain ⟨rfl, -, hv⟩ := hen
  have hge : (0 : ℤ) ≤ d.processed + 1 := by
    have := hd.released_ge
    have := hd.released_le
    have := hd.marked_le
    omega
  simp only [delivered, apply, span_succ hge, List.filterMap_append, List.filter_append,
    List.filterMap_cons, hv, List.filterMap_nil]
  cases hsig : v.shutdownSignal <;> simp [hsig]

/-- `s` was written by a `shutdown()`. -/
def Marker (d : State ℕ (LogEvent M)) (s : ℤ) : Prop :=
  ∃ v, d.cell s = some v ∧ v.shutdownSignal = true

/-- No marker has been processed. -/
def Clean (d : State ℕ (LogEvent M)) : Prop :=
  ∀ s, 0 ≤ s → s ≤ d.processed → ¬ Marker d s

/-- The last processed sequence is the first marker. -/
def Stopped (d : State ℕ (LogEvent M)) : Prop :=
  0 ≤ d.processed ∧ Marker d d.processed ∧ ∀ s, 0 ≤ s → s < d.processed → ¬ Marker d s

theorem marker_produces {p : ℕ}
    (hd : WellFormed B d) (h : Produces p d d') {s : ℤ} (h0 : 0 ≤ s)
    (hs : s ≤ d.processed) : Marker d' s ↔ Marker d s := by
  rw [Marker, Marker, cell_eq_of_processed hd h h0 hs]

theorem Clean.produces {p : ℕ} (hc : Clean d)
    (hd : WellFormed B d) (h : Produces p d d') : Clean d' := by
  intro s h0 hs
  rw [h.processed] at hs
  rw [marker_produces hd h h0 hs]
  exact hc s h0 hs

theorem Stopped.produces {p : ℕ} (hc : Stopped d)
    (hd : WellFormed B d) (h : Produces p d d') : Stopped d' := by
  obtain ⟨h0, hm, hlt⟩ := hc
  rw [Stopped, h.processed]
  refine ⟨h0, (marker_produces hd h h0 le_rfl).mpr hm, fun s hs hsp => ?_⟩
  rw [marker_produces hd h hs hsp.le]
  exact hlt s hs hsp

theorem Clean.process {d : State ℕ (LogEvent M)} {s : ℤ} {v : LogEvent M}
    (hc : Clean d) (hen : Enabled B d (.process s v)) (hv : v.shutdownSignal = false) :
    Clean (apply d (.process s v)) := by
  obtain ⟨rfl, -, hcell⟩ := hen
  rintro t h0 ht ⟨w, hw, hsig⟩
  simp only [apply] at ht hw
  rcases eq_or_ne t (d.processed + 1) with rfl | hne
  · obtain rfl : v = w := Option.some.inj (hcell.symm.trans hw)
    simp [hv] at hsig
  · exact hc t h0 (by omega) ⟨w, hw, hsig⟩

theorem Clean.stop {d : State ℕ (LogEvent M)} {s : ℤ} {v : LogEvent M}
    (hd : WellFormed B d) (hc : Clean d) (hen : Enabled B d (.process s v))
    (hv : v.shutdownSignal = true) : Stopped (apply d (.process s v)) := by
  obtain ⟨rfl, -, hcell⟩ := hen
  have := hd.released_ge
  have := hd.released_le
  have := hd.marked_le
  refine ⟨by simp only [apply]; omega, ⟨v, hcell, hv⟩, fun t h0 ht => ?_⟩
  simp only [apply] at ht
  exact hc t h0 (by omega)

/-! ### The consumer -/

/-- What the consumer knows of the protocol state. -/
def Consumer.Knows (d : State ℕ (LogEvent M)) : Consumer M → Prop
  | .loop nextSeq | .start nextSeq | .wait nextSeq | .post nextSeq _ _ =>
      d.processed = nextSeq - 1 ∧ d.marked = nextSeq - 1 ∧ d.released ≤ nextSeq - 1
  | .scan nextSeq availableSequence seq =>
      d.processed = nextSeq - 1 ∧ d.marked = nextSeq - 1 ∧ d.released ≤ nextSeq - 1 ∧
        availableSequence ≤ d.cursor ∧ nextSeq ≤ seq ∧
        ∀ s, nextSeq ≤ s → s < seq → d.published s = true
  | .read seq available _ =>
      d.processed = seq - 1 ∧ d.marked = seq - 1 ∧ d.released ≤ seq - 1 ∧
        ∀ s, seq ≤ s → s ≤ available → d.published s = true
  | .move seq available _ =>
      d.processed = seq - 1 ∧ d.marked = seq - 1 ∧ d.released ≤ seq - 1 ∧
        (∀ s, seq ≤ s → s ≤ available → d.published s = true) ∧
        d.published seq = true ∧ ¬ Marker d seq
  | .mark seq available _ =>
      d.processed = seq ∧ d.marked = seq - 1 ∧ d.released ≤ seq - 1 ∧
        ∀ s, seq < s → s ≤ available → d.published s = true
  | .stop seq _ =>
      d.processed = seq - 1 ∧ d.marked = seq - 1 ∧ d.released ≤ seq - 1 ∧
        d.published seq = true ∧ Marker d seq
  | .store seq _ | .gate seq _ =>
      d.processed = seq ∧ d.marked = seq ∧ d.released ≤ seq
  | .exited => True

/-- `running_` and the markers: the flag goes down when the first marker is
met, and the consumer leaves its loop at the next test. -/
def Phase (d : State ℕ (LogEvent M)) (running : Bool) : Consumer M → Prop
  | .loop _ | .gate _ _ | .post _ _ _ => if running then Clean d else Stopped d
  | .store _ _ => running = true ∧ Stopped d
  | .exited => running = false ∧ Stopped d
  | _ => running = true ∧ Clean d

/-- The events of the current batch that sink `k` has not been given. -/
def Consumer.unposted (k : ℕ) : Consumer M → List (LogEvent M)
  | .read _ _ batch | .move _ _ batch | .mark _ _ batch => batch
  | .stop _ batch | .store _ batch | .gate _ batch => batch
  | .post _ sink batch => if k < sink then [] else batch
  | _ => []

/-- Two protocol states agree on what is written at a published sequence. -/
theorem marker_of_published {p : ℕ}
    (hd : WellFormed B d) (h : Produces p d d') {s : ℤ} (hs : d.published s = true) :
    Marker d' s ↔ Marker d s := by
  obtain ⟨v, hv⟩ := Option.ne_none_iff_exists'.mp (hd.published_cell s hs)
  rw [Marker, Marker, hv, h.cell s v hv]

theorem Consumer.Knows.produces {p : ℕ}
    {c : Consumer M} (h : c.Knows d) (hwf : WellFormed B d) (hd : Produces p d d') :
    c.Knows d' := by
  have hcursor := hd.cursor
  cases c with
  | scan nextSeq availableSequence seq =>
      obtain ⟨h1, h2, h3, h4, h5, hpub⟩ := h
      simp only [Knows, hd.processed, hd.marked, hd.released]
      exact ⟨h1, h2, h3, by omega, h5, fun s hlo hhi => hd.published s (hpub s hlo hhi)⟩
  | read seq available batch =>
      obtain ⟨h1, h2, h3, hpub⟩ := h
      simp only [Knows, hd.processed, hd.marked, hd.released]
      exact ⟨h1, h2, h3, fun s hlo hhi => hd.published s (hpub s hlo hhi)⟩
  | move seq available batch =>
      obtain ⟨h1, h2, h3, hpub, hseq, hnot⟩ := h
      simp only [Knows, hd.processed, hd.marked, hd.released]
      exact ⟨h1, h2, h3, fun s hlo hhi => hd.published s (hpub s hlo hhi),
        hd.published seq hseq, (marker_of_published hwf hd hseq).not.mpr hnot⟩
  | mark seq available batch =>
      obtain ⟨h1, h2, h3, hpub⟩ := h
      simp only [Knows, hd.processed, hd.marked, hd.released]
      exact ⟨h1, h2, h3, fun s hlo hhi => hd.published s (hpub s hlo hhi)⟩
  | stop seq batch =>
      obtain ⟨h1, h2, h3, hseq, hmark⟩ := h
      simp only [Knows, hd.processed, hd.marked, hd.released]
      exact ⟨h1, h2, h3, hd.published seq hseq, (marker_of_published hwf hd hseq).mpr hmark⟩
  | exited => trivial
  | _ => simpa only [Knows, hd.processed, hd.marked, hd.released] using h

theorem Phase.produces {p : ℕ} {running : Bool}
    {c : Consumer M} (h : Phase d running c) (hwf : WellFormed B d) (hd : Produces p d d') :
    Phase d' running c := by
  have hboth (hif : if running then Clean d else Stopped d) :
      if running then Clean d' else Stopped d' := by
    cases running with
    | true => exact Clean.produces hif hwf hd
    | false => exact Stopped.produces hif hwf hd
  cases c with
  | loop nextSeq => exact hboth h
  | gate lastConsumed batch => exact hboth h
  | post nextSeq sink batch => exact hboth h
  | store seq batch => exact ⟨h.1, h.2.produces hwf hd⟩
  | exited => exact ⟨h.1, h.2.produces hwf hd⟩
  | _ => exact ⟨h.1, h.2.produces hwf hd⟩

/-- What a move leaves behind in a slot that has been processed and still
carries its flag. -/
theorem tracks_residue {B : BufferSize} {m : Memory (LogEvent M)}
    {d : State ℕ (LogEvent M)} (h : Tracks B m d) {s : ℤ} {v : LogEvent M}
    (hs : d.marked < s) (hsp : s ≤ d.processed) : Tracks B (m.put B s v) d where
  wf := h.wf
  cursor := h.cursor
  gating := h.gating
  flags := h.flags
  slots t w ht hw := by
    have hsc := h.wf.processed_le
    have htc : t ≤ d.cursor := by
      by_contra hgt
      rw [h.wf.cell_of_gt (by omega)] at hw
      cases hw
    have hne : B.index t ≠ B.index s := by
      intro heq
      have := h.index_inj (by omega) htc hs (by omega) heq
      omega
    simpa [Memory.get, Memory.put, hne] using h.slots t w ht hw

end Demiplane.Scroll

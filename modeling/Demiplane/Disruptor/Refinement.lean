import Demiplane.Disruptor.Sequencer

/-!
The sequencer refines the claim/publish protocol. `Tracks` relates the shared
memory to a protocol state: a flag is up exactly for the published sequence
that lives in its slot, and a slot holds the value written for the sequence
that lives there. What makes this well defined is that all live sequences lie
within one window of the buffer.

`Owns` is what a producer knows of the protocol state at each of its program
points. The knowledge is stable: nothing another thread does takes it away,
which is `Owns.frame`. The stale reads of a claim are harmless for the same
reason, since the gating sequence only grows.
-/

namespace Demiplane.Disruptor

open RingProtocol Transition

variable {P α : Type*} {B : BufferSize}

/-! ### Memory -/

/-- The memory `m` represents the protocol state `d`. -/
structure Tracks (B : BufferSize) (m : Memory α) (d : State P α) : Prop where
  wf : WellFormed B.size d
  cursor : m.cursor = d.cursor
  gating : m.gatingSequence = d.released
  flags : ∀ i, m.availableFlags i = true ↔
    ∃ s, d.marked < s ∧ s ≤ d.cursor ∧ B.index s = i ∧ d.published s = true
  slots : ∀ s v, d.processed < s → d.cell s = some v → m.get B s = v

theorem tracks_init (blank : α) : Tracks B (Memory.init blank) (init : State P α) where
  wf := wellFormed_init (by omega)
  cursor := rfl
  gating := rfl
  flags i := by simp [Memory.init, init]
  slots s v _ h := by simp [init] at h

namespace Tracks

variable {m : Memory α} {d : State P α}

/-- Two live sequences that share a slot are the same. -/
theorem index_inj (h : Tracks B m d) {s t : ℤ} (hs : d.marked < s) (hsc : s ≤ d.cursor)
    (ht : d.marked < t) (htc : t ≤ d.cursor) (hst : B.index s = B.index t) : s = t := by
  have := h.wf.released_le
  have := h.wf.cursor_le
  exact B.index_inj hst (by omega) (by omega)

/-- The flag of a live sequence says whether it is published. -/
theorem isAvailable_iff (h : Tracks B m d) {s : ℤ} (hs : d.marked < s)
    (hsc : s ≤ d.cursor) : m.isAvailable B s = true ↔ d.published s = true := by
  rw [Memory.isAvailable, h.flags]
  constructor
  · rintro ⟨t, ht, htc, hts, hpub⟩
    rwa [h.index_inj hs hsc ht htc hts.symm]
  · intro hpub
    exact ⟨s, hs, hsc, rfl, hpub⟩

theorem claim (h : Tracks B m d) {p : P} {lo hi : ℤ}
    (hen : Enabled B.size d (.claim p lo hi)) :
    Tracks B { m with cursor := hi } (apply d (.claim p lo hi)) := by
  have hlo := hen.1
  have hle := hen.2.1
  refine ⟨wellFormed_apply h.wf hen, rfl, h.gating, ?_, h.slots⟩
  intro i
  rw [h.flags]
  constructor
  · rintro ⟨s, hs, hsc, hi, hpub⟩
    exact ⟨s, hs, by simp only [apply]; omega, hi, hpub⟩
  · rintro ⟨s, hs, -, hi, hpub⟩
    -- a freshly claimed sequence is not published
    have hsc : s ≤ d.cursor := by
      by_contra hgt
      exact h.wf.published_cell s hpub (h.wf.cell_of_gt (by omega))
    exact ⟨s, hs, hsc, hi, hpub⟩

theorem write (h : Tracks B m d) {p : P} {s : ℤ} {v : α}
    (hen : Enabled B.size d (.write p s v)) :
    Tracks B (m.put B s v) (apply d (.write p s v)) := by
  have hwf := wellFormed_apply h.wf hen
  obtain ⟨howner, hcell⟩ := hen
  have hrange := h.wf.owner_range howner
  have hlive := h.wf.lt_of_not_published hrange.1 (h.wf.not_published_of_cell hcell)
  refine ⟨hwf, h.cursor, h.gating,
    h.flags, ?_⟩
  intro t w ht hw
  simp only [apply] at ht hw
  by_cases hts : t = s
  · subst hts
    simpa [Memory.get, Memory.put] using hw
  · rw [Function.update_of_ne hts] at hw
    have hmark := h.wf.marked_le
    obtain ⟨q, hq⟩ := h.wf.cell_owned t (by simp [hw])
    have hne : B.index t ≠ B.index s := by
      intro heq
      exact hts (h.index_inj (by omega) (h.wf.owner_range hq).2 (by omega) hrange.2 heq)
    simpa [Memory.get, Memory.put, hne] using h.slots t w ht hw

theorem publish (h : Tracks B m d) {p : P} {s : ℤ}
    (hen : Enabled B.size d (.publish p s)) :
    Tracks B (m.setAvailable B s) (apply d (.publish p s)) := by
  have hwf := wellFormed_apply h.wf hen
  obtain ⟨howner, hcell, hunpub⟩ := hen
  have hrange := h.wf.owner_range howner
  have hlive := h.wf.lt_of_not_published hrange.1 hunpub
  have hmark := h.wf.marked_le
  refine ⟨hwf, h.cursor,
    h.gating, ?_, h.slots⟩
  intro i
  simp only [Memory.setAvailable, apply]
  by_cases hi : i = B.index s
  · subst hi
    simp only [Function.update_self, true_iff]
    exact ⟨s, by omega, hrange.2, rfl, by simp⟩
  · rw [Function.update_of_ne hi, h.flags]
    refine exists_congr fun t => ?_
    by_cases hts : t = s
    · subst hts
      simp [Ne.symm hi]
    · simp [hts]

theorem mark (h : Tracks B m d) {s : ℤ} (hen : Enabled B.size d (.mark s)) :
    Tracks B (m.markConsumed B s) (apply d (.mark s)) := by
  have hwf := wellFormed_apply h.wf hen
  obtain ⟨rfl, hs⟩ := hen
  refine ⟨hwf, h.cursor, h.gating, ?_,
    h.slots⟩
  have hproc := h.wf.processed_le
  intro i
  simp only [Memory.markConsumed, apply]
  by_cases hi : i = B.index (d.marked + 1)
  · subst hi
    simp only [Function.update_self, Bool.false_eq_true, false_iff, not_exists]
    rintro t ⟨ht, htc, hidx, -⟩
    have := h.index_inj (by omega) htc (by omega) (by omega) hidx
    omega
  · rw [Function.update_of_ne hi, h.flags]
    refine exists_congr fun t => ?_
    constructor
    · rintro ⟨ht, htc, hidx, hpub⟩
      have hne : t ≠ d.marked + 1 := fun heq => hi (heq ▸ hidx.symm)
      exact ⟨by omega, htc, hidx, hpub⟩
    · rintro ⟨ht, htc, hidx, hpub⟩
      exact ⟨by omega, htc, hidx, hpub⟩

theorem process (h : Tracks B m d) {s : ℤ} {v : α}
    (hen : Enabled B.size d (.process s v)) : Tracks B m (apply d (.process s v)) := by
  have hwf := wellFormed_apply h.wf hen
  obtain ⟨rfl, hs⟩ := hen
  refine ⟨hwf, h.cursor, h.gating,
    h.flags, ?_⟩
  intro t w ht hw
  simp only [apply] at ht hw
  exact h.slots t w (by omega) hw

theorem release (h : Tracks B m d) {s : ℤ} (hen : Enabled B.size d (.release s)) :
    Tracks B (m.updateGatingSequence s) (apply d (.release s)) :=
  ⟨wellFormed_apply h.wf hen, h.cursor, rfl, h.flags, h.slots⟩

/-- The consumer reads the value of the next published sequence. -/
theorem enabled_process (h : Tracks B m d) {s : ℤ} (hs : s = d.processed + 1)
    (hpub : d.published s = true) : Enabled B.size d (.process s (m.get B s)) := by
  subst hs
  obtain ⟨v, hv⟩ := Option.ne_none_iff_exists'.mp (h.wf.published_cell _ hpub)
  exact ⟨rfl, hpub, by rw [hv, h.slots _ v (by omega) hv]⟩

end Tracks

/-! ### Producers -/

/-- What producer `p` relies on at each of its program points. -/
def Owns (B : BufferSize) (p : P) (d : State P α) : Producer → Prop
  | .idle | .signal => True
  | .loadCursor c => c.Valid B
  | .loadGating c _ => c.Valid B
  | .spin c _ => c.Valid B
  | .compareAndSet c current => c.Valid B ∧ current + c.count ≤ d.released + B.size
  | .write lo hi todo =>
      lo ≤ hi ∧ todo.Nodup ∧ (∀ s ∈ todo, lo ≤ s ∧ s ≤ hi) ∧
        ∀ s, lo ≤ s → s ≤ hi →
          d.owner s = some p ∧ d.published s = false ∧ (d.cell s = none ↔ s ∈ todo)
  | .publish hi seq =>
      seq ≤ hi ∧ ∀ s, seq ≤ s → s ≤ hi →
        d.owner s = some p ∧ d.published s = false ∧ d.cell s ≠ none

/-- A change of the protocol state that leaves the sequences of `p` alone. -/
structure Frame (p : P) (d d' : State P α) : Prop where
  released : d.released ≤ d'.released
  owner : ∀ s, d.owner s = some p → d'.owner s = some p
  published : ∀ s, d.owner s = some p → d'.published s = d.published s
  cell : ∀ s, d.owner s = some p → d'.cell s = d.cell s

theorem Owns.frame {p : P} {d d' : State P α} {q : Producer} (h : Owns B p d q)
    (hf : Frame p d d') : Owns B p d' q := by
  cases q with
  | idle => trivial
  | loadCursor c => exact h
  | loadGating c current => exact h
  | spin c current => exact h
  | compareAndSet c current =>
      have := hf.released
      exact ⟨h.1, by have := h.2; omega⟩
  | write lo hi todo =>
      obtain ⟨hle, hnd, hin, hall⟩ := h
      refine ⟨hle, hnd, hin, fun s hlo hhi => ?_⟩
      obtain ⟨ho, hp, hc⟩ := hall s hlo hhi
      exact ⟨hf.owner s ho, by rw [hf.published s ho, hp], by rw [hf.cell s ho, hc]⟩
  | publish hi seq =>
      refine ⟨h.1, fun s hlo hhi => ?_⟩
      obtain ⟨ho, hp, hc⟩ := h.2 s hlo hhi
      exact ⟨hf.owner s ho, by rw [hf.published s ho, hp], by rw [hf.cell s ho]; exact hc⟩
  | signal => trivial

theorem Frame.refl (p : P) (d : State P α) : Frame p d d :=
  ⟨le_rfl, fun _ h => h, fun _ _ => rfl, fun _ _ => rfl⟩

/-- The consumer's events leave every producer's sequences alone. -/
theorem frame_process (p : P) (d : State P α) (s : ℤ) (v : α) :
    Frame p d (apply d (.process s v)) :=
  ⟨le_rfl, fun _ h => h, fun _ _ => rfl, fun _ _ => rfl⟩

theorem frame_mark (p : P) (d : State P α) (s : ℤ) : Frame p d (apply d (.mark s)) :=
  ⟨le_rfl, fun _ h => h, fun _ _ => rfl, fun _ _ => rfl⟩

theorem frame_release (p : P) {d : State P α} {s : ℤ}
    (hen : Enabled B.size d (.release s)) : Frame p d (apply d (.release s)) :=
  ⟨hen.1, fun _ h => h, fun _ _ => rfl, fun _ _ => rfl⟩

/-- What a step of producer `p` may do to the protocol state, as the consumer
and the other producers see it. -/
structure Produces (p : P) (d d' : State P α) : Prop where
  others : ∀ q, q ≠ p → Frame q d d'
  cursor : d.cursor ≤ d'.cursor
  published : ∀ s, d.published s = true → d'.published s = true
  cell : ∀ s v, d.cell s = some v → d'.cell s = some v
  processed : d'.processed = d.processed
  marked : d'.marked = d.marked
  released : d'.released = d.released

theorem Produces.refl (p : P) (d : State P α) : Produces p d d :=
  ⟨fun q _ => Frame.refl q d, le_rfl, fun _ h => h, fun _ _ h => h, rfl, rfl, rfl⟩

theorem produces_claim {p : P} {d : State P α} {lo hi : ℤ} (hd : WellFormed B.size d)
    (hen : Enabled B.size d (.claim p lo hi)) :
    Produces p d (apply d (.claim p lo hi)) := by
  have hlo := hen.1
  have hle := hen.2.1
  refine ⟨fun q _ => ⟨le_rfl, ?_, fun _ _ => rfl, fun _ _ => rfl⟩, by simp only [apply]; omega,
    fun _ h => h, fun _ _ h => h, rfl, rfl, rfl⟩
  intro s hs
  have := hd.owner_range hs
  simp only [apply]
  rw [if_neg (by omega)]
  exact hs

theorem produces_write {p : P} {d : State P α} {s : ℤ} {v : α}
    (hen : Enabled B.size d (.write p s v)) : Produces p d (apply d (.write p s v)) := by
  refine ⟨fun q hq => ⟨le_rfl, fun _ h => h, fun _ _ => rfl, ?_⟩, le_rfl, fun _ h => h, ?_,
    rfl, rfl, rfl⟩
  · intro t ht
    have hne : t ≠ s := by
      rintro rfl
      rw [hen.1] at ht
      exact hq (Option.some.inj ht).symm
    simp [apply, hne]
  · intro t w ht
    have hne : t ≠ s := by
      rintro rfl
      simp [hen.2] at ht
    simpa [apply, hne] using ht

theorem produces_publish {p : P} {d : State P α} {s : ℤ}
    (hen : Enabled B.size d (.publish p s)) : Produces p d (apply d (.publish p s)) := by
  refine ⟨fun q hq => ⟨le_rfl, fun _ h => h, ?_, fun _ _ => rfl⟩, le_rfl, ?_, fun _ _ h => h,
    rfl, rfl, rfl⟩
  · intro t ht
    have hne : t ≠ s := by
      rintro rfl
      rw [hen.1] at ht
      exact hq (Option.some.inj ht).symm
    simp [apply, hne]
  · intro t ht
    by_cases hts : t = s
    · simp [apply, hts]
    · simpa [apply, hts] using ht

/-- One step of a producer is a run of the protocol. -/
theorem Producer.step_refines {p : P} {m m' : Memory α} {d : State P α} {q q' : Producer}
    {a : ProducerAction α} (hm : Tracks B m d) (hq : Owns B p d q)
    (h : q.step B m a = some (m', q')) :
    ∃ d', run (RingProtocol.step B.size) d (q.emit p m a) = some d' ∧ Tracks B m' d' ∧
      Owns B p d' q' ∧ Produces p d d' := by
  -- every step but the claim, the write and the publication leaves memory and protocol alone
  have hquiet : ∀ {r : Producer}, m' = m → Owns B p d r → q' = r →
      q.emit p m a = [] →
      ∃ d', run (RingProtocol.step B.size) d (q.emit p m a) = some d' ∧ Tracks B m' d' ∧
        Owns B p d' q' ∧ Produces p d d' := by
    rintro r rfl hr rfl hemit
    exact ⟨d, by rw [hemit]; rfl, hm, hr, Produces.refl p d⟩
  have horElse : ∀ (c : Claim) (r : Producer), Owns B p d r → Owns B p d (c.orElse r) := by
    intro c r hr
    cases c with
    | tryNext => trivial
    | next => exact hr
    | nextBatch n => exact hr
  cases q with
  | idle =>
      cases a with
      | call c =>
          simp only [Producer.step] at h
          split at h
          · rename_i hc
            cases h
            exact hquiet (r := .loadCursor c) rfl hc rfl rfl
          · cases h
      | _ => cases h
  | loadCursor c =>
      cases a with
      | loadCursor =>
          cases h
          exact hquiet (r := .loadGating c m.cursor) rfl hq rfl rfl
      | _ => cases h
  | loadGating c current =>
      cases a with
      | loadGating =>
          simp only [Producer.step] at h
          split at h
          · cases h
            exact hquiet rfl (horElse c (.spin c current) hq) rfl rfl
          · rename_i hroom
            cases h
            rw [hm.gating, wrapPoint] at hroom
            exact hquiet (r := .compareAndSet c current) rfl ⟨hq, by omega⟩ rfl rfl
      | _ => cases h
  | spin c current =>
      cases a with
      | loadGating =>
          simp only [Producer.step] at h
          split at h
          · cases h
            exact hquiet (r := .spin c current) rfl hq rfl rfl
          · rename_i hroom
            cases h
            rw [hm.gating, wrapPoint] at hroom
            exact hquiet (r := .compareAndSet c current) rfl ⟨hq, by omega⟩ rfl rfl
      | _ => cases h
  | compareAndSet c current =>
      cases a with
      | compareAndSet spurious =>
          obtain ⟨hvalid, hroom⟩ := hq
          simp only [Producer.step] at h
          split at h
          · rename_i hwin
            cases h
            have hen : Enabled B.size d (.claim p (current + 1) (current + c.count)) :=
              ⟨by rw [← hm.cursor, hwin.1], by have := hvalid.1; omega, hroom⟩
            refine ⟨apply d (.claim p (current + 1) (current + c.count)), ?_, hm.claim hen, ?_,
              produces_claim hm.wf hen⟩
            · simp only [Producer.emit, if_pos hwin]
              exact run_singleton hen
            · refine ⟨hen.2.1, nodup_span _ _, fun s hs => mem_span.mp hs, fun s hlo hhi => ?_⟩
              have hcell : d.cell s = none :=
                hm.wf.cell_of_gt (by have := hen.1; omega)
              exact ⟨if_pos ⟨hlo, hhi⟩, hm.wf.not_published_of_cell hcell,
                by simp [apply, hcell, mem_span, hlo, hhi]⟩
          · rename_i hlost
            cases h
            exact hquiet rfl (horElse c (.loadCursor c) hvalid) rfl
              (by simp only [Producer.emit, if_neg hlost])
      | _ => cases h
  | write lo hi todo =>
      cases a with
      | write s v =>
          obtain ⟨hle, hnd, hin, hall⟩ := hq
          simp only [Producer.step] at h
          split at h
          · rename_i hs
            cases h
            have hrange := hin s hs
            obtain ⟨ho, hp, hc⟩ := hall s hrange.1 hrange.2
            have hen : Enabled B.size d (.write p s v) := ⟨ho, hc.mpr hs⟩
            have hcell : ∀ t, lo ≤ t → t ≤ hi →
                ((apply d (.write p s v)).cell t = none ↔ t ∈ todo.erase s) := by
              intro t hlo hhi
              rw [hnd.mem_erase_iff]
              by_cases hts : t = s
              · simp [apply, hts]
              · simp [apply, hts, (hall t hlo hhi).2.2]
            refine ⟨apply d (.write p s v), run_singleton hen, hm.write hen, ?_,
              produces_write hen⟩
            split
            · rename_i hempty
              refine ⟨hle, fun t hlo hhi => ?_⟩
              obtain ⟨ho', hp', -⟩ := hall t hlo hhi
              refine ⟨ho', hp', ?_⟩
              rw [Ne, hcell t hlo hhi, hempty]
              exact List.not_mem_nil
            · refine ⟨hle, hnd.erase s, fun t ht => hin t (List.mem_of_mem_erase ht),
                fun t hlo hhi => ?_⟩
              obtain ⟨ho', hp', -⟩ := hall t hlo hhi
              exact ⟨ho', hp', hcell t hlo hhi⟩
          · cases h
      | _ => cases h
  | publish hi seq =>
      cases a with
      | publish =>
          obtain ⟨hle, hall⟩ := hq
          cases h
          have hen : Enabled B.size d (.publish p seq) := by
            obtain ⟨ho, hp, hc⟩ := hall seq le_rfl hle
            exact ⟨ho, hc, hp⟩
          refine ⟨apply d (.publish p seq), run_singleton hen, hm.publish hen, ?_,
            produces_publish hen⟩
          split
          · refine ⟨by omega, fun t hlo hhi => ?_⟩
            obtain ⟨ho, hp, hc⟩ := hall t (by omega) hhi
            have hne : t ≠ seq := by omega
            exact ⟨ho, by simpa [apply, hne] using hp, hc⟩
          · trivial
      | _ => cases h
  | signal =>
      cases a with
      | signal =>
          cases h
          exact hquiet (r := .idle) rfl trivial rfl rfl
      | _ => cases h

end Demiplane.Disruptor

import Demiplane.Disruptor.Refinement
import Demiplane.Scroll.Logger

/-!
The producing side of the logger. A thread in `log()` and a thread in
`shutdown()` do the same on the ring: they claim one sequence with `next()`,
write its slot and publish it. They differ in what they write, and that is
what the record of claims keeps: a sequence was claimed for a call of `log()`
or for a shutdown marker.
-/

namespace Demiplane.Scroll

open Disruptor RingProtocol Transition

variable {M : Type*}

/-! ### Reading a trace -/

def ringEvents : List (Occurrence M) → List (Event ℕ (LogEvent M))
  | [] => []
  | .ring e :: tr => e :: ringEvents tr
  | _ :: tr => ringEvents tr

/-- Who claimed what for: a call of `log()`, or a marker. -/
def claimsOf : List (Occurrence M) → List (ℤ × Option (LogCall M))
  | [] => []
  | .logClaim _ call s :: tr => (s, some call) :: claimsOf tr
  | .shutdownClaim _ s :: tr => (s, none) :: claimsOf tr
  | _ :: tr => claimsOf tr

/-- The batches sink `k` has processed. -/
def batchesOf (k : ℕ) : List (Occurrence M) → List (List (LogEvent M))
  | [] => []
  | .processed j batch :: tr => if j = k then batch :: batchesOf k tr else batchesOf k tr
  | _ :: tr => batchesOf k tr

@[simp] theorem ringEvents_append (tr us : List (Occurrence M)) :
    ringEvents (tr ++ us) = ringEvents tr ++ ringEvents us := by
  induction tr with
  | nil => rfl
  | cons o tr ih => cases o <;> simp [ringEvents, ih]

@[simp] theorem claimsOf_append (tr us : List (Occurrence M)) :
    claimsOf (tr ++ us) = claimsOf tr ++ claimsOf us := by
  induction tr with
  | nil => rfl
  | cons o tr ih => cases o <;> simp [claimsOf, ih]

@[simp] theorem batchesOf_append (k : ℕ) (tr us : List (Occurrence M)) :
    batchesOf k (tr ++ us) = batchesOf k tr ++ batchesOf k us := by
  induction tr with
  | nil => rfl
  | cons o tr ih =>
      cases o <;> simp only [List.cons_append, batchesOf, ih]
      split <;> rfl

/-! ### What is in the ring -/

/-- The value written for a claim. -/
def Fits : Option (LogCall M) → LogEvent M → Prop
  | some call, v => v = call.event
  | none, v => v.shutdownSignal = true

/-- The ring represents a protocol state whose claims and cells are those of
the trace. -/
structure Holds (B : BufferSize) (m : Memory (LogEvent M)) (d : State ℕ (LogEvent M))
    (tr : List (Occurrence M)) : Prop where
  protocol : run (RingProtocol.step B.size) init (ringEvents tr) = some d
  memory : Tracks B m d
  claims : (claimsOf tr).map Prod.fst = span 0 d.cursor
  cells : ∀ s v, d.cell s = some v → ∃ kind, (s, kind) ∈ claimsOf tr ∧ Fits kind v

theorem holds_start {B : BufferSize} (captured : M) :
    Holds B (Logger.start captured).memory init [] where
  protocol := rfl
  memory := tracks_init _
  claims := rfl
  cells s v h := by simp [init] at h

namespace Holds

variable {B : BufferSize} {m m' : Memory (LogEvent M)} {d d' : State ℕ (LogEvent M)}
  {tr : List (Occurrence M)}

/-- A sequence is claimed for one thing only. -/
theorem kind_unique (h : Holds B m d tr) {s : ℤ} {a b : Option (LogCall M)}
    (ha : (s, a) ∈ claimsOf tr) (hb : (s, b) ∈ claimsOf tr) : a = b := by
  have hnd : ((claimsOf tr).map Prod.fst).Nodup := h.claims ▸ nodup_span 0 d.cursor
  have := List.inj_on_of_nodup_map hnd ha hb rfl
  exact congrArg Prod.snd this

theorem range_of_mem (h : Holds B m d tr) {s : ℤ} {kind : Option (LogCall M)}
    (hs : (s, kind) ∈ claimsOf tr) : 0 ≤ s ∧ s ≤ d.cursor := by
  have : s ∈ (claimsOf tr).map Prod.fst := List.mem_map_of_mem hs
  rwa [h.claims, mem_span] at this

/-- Occurrences that are no claims and change no cell. -/
theorem quiet (h : Holds B m d tr) (us : List (Occurrence M))
    (hrun : run (RingProtocol.step B.size) d (ringEvents us) = some d')
    (hm : Tracks B m' d') (hus : claimsOf us = []) (hcursor : d'.cursor = d.cursor)
    (hcell : d'.cell = d.cell) : Holds B m' d' (tr ++ us) where
  protocol := by simp [run_append, h.protocol, hrun]
  memory := hm
  claims := by simpa [hus, hcursor] using h.claims
  cells s v hv := by simpa [hus] using h.cells s v (hcell ▸ hv)

end Holds

/-! ### Sending one value -/

/-- The thread claims one sequence with `next()` and publishes it; `C s` says
that it has claimed `s`. -/
def Sends (seq : ℤ) (C : ℤ → Prop) : Producer → Prop
  | .idle => False
  | .loadCursor c | .loadGating c _ | .spin c _ | .compareAndSet c _ => c = .next
  | .write lo hi todo => lo = seq ∧ hi = seq ∧ todo = [seq] ∧ C seq
  | .publish hi s => hi = seq ∧ s = seq ∧ C seq
  | .signal => C seq

theorem Sends.mono {seq : ℤ} {C D : ℤ → Prop} {q : Producer} (h : Sends seq C q)
    (hCD : ∀ s, C s → D s) : Sends seq D q := by
  cases q with
  | idle => exact h
  | loadCursor c => exact h
  | loadGating c current => exact h
  | spin c current => exact h
  | compareAndSet c current => exact h
  | write lo hi todo => exact ⟨h.1, h.2.1, h.2.2.1, hCD _ h.2.2.2⟩
  | publish hi s => exact ⟨h.1, h.2.1, hCD _ h.2.2⟩
  | signal => exact hCD _ h

/-- A thread that begins with `next()`. -/
theorem begins_next (B : BufferSize) (p : ℕ) (d : State ℕ (LogEvent M)) (C : ℤ → Prop) :
    Owns B p d (.loadCursor .next) ∧ Sends 0 C (.loadCursor .next) := by
  have := B.size_pos
  exact ⟨⟨le_rfl, by simp only [Claim.count]; omega⟩, rfl⟩

/-- The claim has not succeeded yet. -/
def Claiming : Producer → Prop
  | .loadCursor _ | .loadGating _ _ | .spin _ _ | .compareAndSet _ _ => True
  | _ => False

/-- Everything a step of a sending thread can be. -/
inductive SendStep (p : ℕ) (m : Memory (LogEvent M)) (seq : ℤ) (v : LogEvent M) :
    Producer → List (Event ℕ (LogEvent M)) → Producer → Prop
  | quiet {q q' : Producer} (hq : Claiming q) (hq' : Claiming q')
      (hs : ∀ C, Sends seq C q') : SendStep p m seq v q [] q'
  | claim {s : ℤ} (hs : s = m.cursor + 1) :
      SendStep p m seq v (.compareAndSet .next m.cursor) [.claim p s s] (.write s s [s])
  | write : SendStep p m seq v (.write seq seq [seq]) [.write p seq v] (.publish seq seq)
  | publish : SendStep p m seq v (.publish seq seq) [.publish p seq] .signal
  | signal : SendStep p m seq v .signal [] .idle

theorem sendStep_of_step {B : BufferSize} {p : ℕ} {m m' : Memory (LogEvent M)} {seq : ℤ}
    {v : LogEvent M} {q q' : Producer} {a : Move} {C : ℤ → Prop} (hs : Sends seq C q)
    (h : q.step B m (a.action seq v) = some (m', q')) :
    SendStep p m seq v q (q.emit p m (a.action seq v)) q' := by
  cases q with
  | idle => exact hs.elim
  | loadCursor c =>
      obtain rfl : c = .next := hs
      cases a with
      | loadCursor => cases h; exact .quiet trivial trivial fun _ => rfl
      | _ => cases h
  | loadGating c current =>
      obtain rfl : c = .next := hs
      cases a with
      | loadGating =>
          simp only [Move.action, Producer.step] at h
          split at h
          · cases h; exact .quiet trivial trivial fun _ => rfl
          · cases h; exact .quiet trivial trivial fun _ => rfl
      | _ => cases h
  | spin c current =>
      obtain rfl : c = .next := hs
      cases a with
      | loadGating =>
          simp only [Move.action, Producer.step] at h
          split at h
          · cases h; exact .quiet trivial trivial fun _ => rfl
          · cases h; exact .quiet trivial trivial fun _ => rfl
      | _ => cases h
  | compareAndSet c current =>
      obtain rfl : c = .next := hs
      cases a with
      | compareAndSet spurious =>
          simp only [Move.action, Producer.step] at h
          simp only [Move.action, Producer.emit]
          split at h
          · rename_i hwin
            cases h
            rw [if_pos hwin]
            obtain ⟨rfl, -⟩ := hwin
            simp only [Claim.count, span_self]
            exact .claim rfl
          · rename_i hlost
            cases h
            rw [if_neg hlost]
            exact .quiet trivial trivial fun _ => rfl
      | _ => cases h
  | write lo hi todo =>
      obtain ⟨rfl, rfl, rfl, -⟩ := hs
      cases a with
      | write =>
          simp only [Move.action, Producer.step, List.mem_singleton, if_true] at h
          cases h
          simp only [List.erase_cons_head, if_true]
          exact .write
      | _ => cases h
  | publish hi s =>
      obtain ⟨rfl, rfl, -⟩ := hs
      cases a with
      | publish =>
          simp only [Move.action, Producer.step, lt_self_iff_false, if_false] at h
          cases h
          exact .publish
      | _ => cases h
  | signal =>
      cases a with
      | signal => cases h; exact .signal
      | _ => cases h

/-- A thread leaves the sequencer only after its `signal`, so with a claim. -/
theorem claimed_of_idle {B : BufferSize} {m m' : Memory (LogEvent M)} {seq : ℤ}
    {v : LogEvent M} {q : Producer} {a : Move} {C : ℤ → Prop} (hs : Sends seq C q)
    (h : q.step B m (a.action seq v) = some (m', .idle)) : C seq := by
  have hstep := sendStep_of_step (p := 0) hs h
  generalize q.emit 0 m (a.action seq v) = es at hstep
  cases hstep with
  | quiet _ hq' => exact hq'.elim
  | signal => exact hs

/-- One step of a sending thread: the ring still holds what the trace says,
and the thread still knows where it is. -/
theorem holds_send {B : BufferSize} {p : ℕ} {m m' : Memory (LogEvent M)}
    {d : State ℕ (LogEvent M)} {tr : List (Occurrence M)} {seq : ℤ} {v : LogEvent M}
    {q q' : Producer} {a : Move} (kind : Option (LogCall M)) (claim : ℤ → Occurrence M)
    (h : Holds B m d tr) (hown : Owns B p d q) (hs : Sends seq (fun s => claim s ∈ tr) q)
    (hclaim : ∀ s, claimsOf [claim s] = [(s, kind)])
    (hring : ∀ s, ringEvents [claim s] = []) (hv : Fits kind v)
    (hstep : q.step B m (a.action seq v) = some (m', q')) :
    ∃ d', Holds B m' d' (tr ++ sent claim (q.emit p m (a.action seq v))) ∧ Owns B p d' q' ∧
      Produces p d d' ∧ (q' = .idle ∨ Sends (claimedSeq seq q')
        (fun s => claim s ∈ tr ++ sent claim (q.emit p m (a.action seq v))) q') := by
  obtain ⟨d', hrun, hm', hown', hprod⟩ := Producer.step_refines h.memory hown hstep
  have hcases := sendStep_of_step (p := p) hs hstep
  have hmem : ∀ s, claim s ∈ tr → (s, kind) ∈ claimsOf tr := by
    intro s hin
    obtain ⟨pre, post, rfl⟩ := List.append_of_mem hin
    rw [← List.singleton_append, claimsOf_append, claimsOf_append, hclaim]
    simp
  refine ⟨d', ?_, hown', hprod, ?_⟩
  · generalize q.emit p m (a.action seq v) = es at hrun hcases
    cases hcases with
    | quiet hq hq' hs' =>
        obtain rfl : d = d' := by simpa [run] using hrun
        exact h.quiet [] rfl hm' rfl rfl rfl
    | signal =>
        obtain rfl : d = d' := by simpa [run] using hrun
        exact h.quiet [] rfl hm' rfl rfl rfl
    | publish =>
        have hd' : apply d (.publish p seq) = d' := by
          simpa [run, step_eq_some] using (step_eq_some.mp (by simpa [run] using hrun)).2
        refine h.quiet [.ring (.publish p seq)] hrun hm' rfl ?_ ?_
        · rw [← hd', apply]
        · rw [← hd', apply]
    | @claim s hcur =>
        have hone : RingProtocol.step (B.size : ℤ) d (.claim p s s) = some d' := by
          simpa [run] using hrun
        have hen := step_eq_some.mp hone
        have hclaims : claimsOf (sent claim [Event.claim p s s]) = [(s, kind)] := by
          simpa [sent, claimsOf] using hclaim s
        have hevents : ringEvents (sent claim [Event.claim p s s]) = [.claim p s s] := by
          simpa [sent, ringEvents] using hring s
        refine ⟨by simp [run_append, h.protocol, hevents, hrun], hm', ?_, ?_⟩
        · have hge : (0 : ℤ) ≤ d.cursor + 1 := by
            have := h.memory.wf.released_ge
            have := h.memory.wf.released_le
            have := h.memory.wf.marked_le
            have := h.memory.wf.processed_le
            omega
          rw [claimsOf_append, hclaims, List.map_append, h.claims, ← hen.2]
          simp [apply, hen.1.1, span_succ hge]
        · intro t w hw
          rw [← hen.2] at hw
          obtain ⟨k, hk, hfit⟩ := h.cells t w hw
          exact ⟨k, by simp [hk], hfit⟩
    | write =>
        have hone : RingProtocol.step (B.size : ℤ) d (.write p seq v) = some d' := by
          simpa [run] using hrun
        have hen := step_eq_some.mp hone
        refine ⟨by simp [run_append, h.protocol, sent, ringEvents, hrun], hm', ?_, ?_⟩
        · rw [← hen.2]
          simpa [sent, claimsOf, apply] using h.claims
        · intro t w hw
          simp only [← hen.2, apply] at hw
          by_cases ht : t = seq
          · subst ht
            obtain rfl : v = w := by simpa using hw
            exact ⟨kind, by simpa [sent, claimsOf] using hmem t hs.2.2.2, hv⟩
          · obtain ⟨k, hk, hfit⟩ := h.cells t w (by simpa [ht] using hw)
            exact ⟨k, by simp [hk], hfit⟩
  · generalize q.emit p m (a.action seq v) = es at hrun hcases
    cases hcases with
    | quiet hq hq' hs' =>
        right
        have hseq : claimedSeq seq q' = seq := by
          cases q' <;> first | rfl | exact hq'.elim
        rw [hseq]
        exact hs' _
    | signal => exact .inl rfl
    | claim hcur => exact .inr ⟨rfl, rfl, rfl, by simp [sent, claimedSeq]⟩
    | write => exact .inr ⟨rfl, rfl, by simp [claimedSeq, hs.2.2.2]⟩
    | publish =>
        have hmine : claim seq ∈ tr := hs.2.2
        exact .inr (by simp [Sends, claimedSeq, hmine])

end Demiplane.Scroll

import Demiplane.Scroll.Pipeline

/-!
The logger refines the claim/publish protocol, and what comes out of the ring
reaches the sinks. For every sink, what it has processed, followed by the
batches waiting on its strand, followed by the part of the current batch the
consumer has not posted yet, is what has come out of the ring. `Represents` is
that together with what the threads and the consumer know of the ring;
`represents_step` is one step of the logger.
-/

namespace Demiplane.Scroll

open Disruptor RingProtocol Transition

variable {M : Type*}

/-- The batch of a task. -/
def Task.batch? : Task M → Option (List (LogEvent M))
  | .processBatch batch => some batch
  | .flush _ => none

/-- The batches that wait on a strand. -/
def Strand.batches (s : Strand M) : List (List (LogEvent M)) := s.tasks.filterMap Task.batch?

@[simp] theorem Strand.tasks_post (s : Strand M) (t : Task M) :
    (s.post t).tasks = s.tasks ++ [t] := by
  simp [Strand.tasks, Strand.post]

@[simp] theorem Strand.batches_post_flush (s : Strand M) (p : ℕ) :
    (s.post (.flush p)).batches = s.batches := by
  simp [Strand.batches, Task.batch?]

@[simp] theorem Strand.batches_post_processBatch (s : Strand M) (batch : List (LogEvent M)) :
    (s.post (.processBatch batch)).batches = s.batches ++ [batch] := by
  simp [Strand.batches, Task.batch?]

theorem Strand.batches_active_processBatch (batch : List (LogEvent M)) (queue : List (Task M)) :
    (⟨some (.processBatch batch), queue⟩ : Strand M).batches =
      batch :: (⟨none, queue⟩ : Strand M).batches := rfl

theorem Strand.batches_active_flush (p : ℕ) (queue : List (Task M)) :
    (⟨some (.flush p), queue⟩ : Strand M).batches = (⟨none, queue⟩ : Strand M).batches := rfl

/-- What a thread knows. From its claim on, it has claimed what the trace says. -/
def Thread.Knows (B : BufferSize) (p : ℕ) (d : State ℕ (LogEvent M))
    (tr : List (Occurrence M)) : Thread M → Prop
  | .idle | .load => True
  | .log call seq q => Owns B p d q ∧ Sends seq (fun s => .logClaim p call s ∈ tr) q
  | .marker seq q => Owns B p d q ∧ Sends seq (fun s => .shutdownClaim p s ∈ tr) q
  | .join | .flush _ _ | .poolJoin | .store => ∃ s, .shutdownClaim p s ∈ tr

theorem Thread.Knows.frame {B : BufferSize} {p : ℕ} {d d' : State ℕ (LogEvent M)}
    {tr : List (Occurrence M)} {t : Thread M} (us : List (Occurrence M))
    (h : t.Knows B p d tr) (hf : Frame p d d') : t.Knows B p d' (tr ++ us) := by
  have hmem {o : Occurrence M} (ho : o ∈ tr) : o ∈ tr ++ us := List.mem_append_left us ho
  have hclaim (hc : ∃ s, Occurrence.shutdownClaim p s ∈ tr) :
      ∃ s, Occurrence.shutdownClaim p s ∈ tr ++ us := hc.imp fun _ => hmem
  cases t with
  | idle => trivial
  | load => trivial
  | log call seq q => exact ⟨h.1.frame hf, h.2.mono fun _ => hmem⟩
  | marker seq q => exact ⟨h.1.frame hf, h.2.mono fun _ => hmem⟩
  | join => exact hclaim h
  | flush next remaining => exact hclaim h
  | poolJoin => exact hclaim h
  | store => exact hclaim h

/-- The logger represents the protocol state `d` after the trace `tr`. -/
structure Represents (cfg : Config) (st : Logger M) (d : State ℕ (LogEvent M))
    (tr : List (Occurrence M)) : Prop where
  ring : Holds cfg.buffer st.memory d tr
  threads : ∀ p, (st.threads p).Knows cfg.buffer p d tr
  consumer : st.consumer.Knows d
  phase : Phase d st.running st.consumer
  pipeline : ∀ k < cfg.sinks, (batchesOf k tr ++ (st.strands k).batches).flatten ++
    st.consumer.unposted k = delivered d

theorem represents_start (cfg : Config) (captured : M) :
    Represents cfg (Logger.start captured) init [] where
  ring := holds_start captured
  threads _ := trivial
  consumer := by simp [Logger.start, Consumer.Knows, init]
  phase s h0 hs := by simp only [init] at hs; omega
  pipeline k _ := rfl

namespace Represents

variable {cfg : Config} {st st' : Logger M} {d d' : State ℕ (LogEvent M)}
  {tr us : List (Occurrence M)}

theorem wf (h : Represents cfg st d tr) : WellFormed cfg.buffer.size d := h.ring.memory.wf

/-- A thread does something to the ring and to itself. -/
theorem thread (h : Represents cfg st d tr) {p : ℕ} {t : Thread M} (hprod : Produces p d d')
    (hring : Holds cfg.buffer st'.memory d' (tr ++ us))
    (hself : t.Knows cfg.buffer p d' (tr ++ us))
    (hthreads : st'.threads = Function.update st.threads p t)
    (hconsumer : st'.consumer = st.consumer) (hrunning : st'.running = st.running)
    (hstrands : ∀ k, (st'.strands k).batches = (st.strands k).batches)
    (hus : ∀ k, batchesOf k us = []) : Represents cfg st' d' (tr ++ us) where
  ring := hring
  threads r := by
    rw [hthreads]
    by_cases hr : r = p
    · subst hr
      simpa using hself
    · simpa [hr] using (h.threads r).frame us (hprod.others r hr)
  consumer := by rw [hconsumer]; exact h.consumer.produces h.wf hprod
  phase := by rw [hconsumer, hrunning]; exact h.phase.produces h.wf hprod
  pipeline k hk := by
    rw [hconsumer, hstrands, batchesOf_append, hus, List.append_nil,
      delivered_produces h.wf hprod]
    exact h.pipeline k hk

/-- A thread goes on without touching the ring. -/
theorem local_step (h : Represents cfg st d tr) {p : ℕ} {t : Thread M}
    (hself : t.Knows cfg.buffer p d tr) (hmemory : st'.memory = st.memory)
    (hthreads : st'.threads = Function.update st.threads p t)
    (hconsumer : st'.consumer = st.consumer) (hrunning : st'.running = st.running)
    (hstrands : ∀ k, (st'.strands k).batches = (st.strands k).batches)
    (hring : ringEvents us = []) (hclaims : claimsOf us = [])
    (hus : ∀ k, batchesOf k us = []) : Represents cfg st' d (tr ++ us) := by
  refine h.thread (Produces.refl p d) ?_ (hself.frame us (Frame.refl p d)) hthreads hconsumer
    hrunning hstrands hus
  rw [hmemory]
  exact h.ring.quiet us (by rw [hring]; rfl) h.ring.memory hclaims rfl rfl

/-- The consumer goes on. -/
theorem consumer_step (h : Represents cfg st d tr)
    (hrun : run (RingProtocol.step cfg.buffer.size) d (ringEvents us) = some d')
    (hmemory : Tracks cfg.buffer st'.memory d') (hclaims : claimsOf us = [])
    (hbatches : ∀ k, batchesOf k us = [])
    (hcursor : d'.cursor = d.cursor) (hcell : d'.cell = d.cell)
    (hframe : ∀ p, Frame p d d') (hthreads : st'.threads = st.threads)
    (hconsumer : st'.consumer.Knows d') (hphase : Phase d' st'.running st'.consumer)
    (hpipeline : ∀ k < cfg.sinks, (batchesOf k tr ++ (st'.strands k).batches).flatten ++
      st'.consumer.unposted k = delivered d') : Represents cfg st' d' (tr ++ us) where
  ring := h.ring.quiet us hrun hmemory hclaims hcursor hcell
  threads p := by rw [hthreads]; exact (h.threads p).frame us (hframe p)
  consumer := hconsumer
  phase := hphase
  pipeline k hk := by rw [batchesOf_append, hbatches, List.append_nil]; exact hpipeline k hk

/-- The consumer goes on without touching the ring. -/
theorem consumer_local (h : Represents cfg st d tr) (hmemory : st'.memory = st.memory)
    (hthreads : st'.threads = st.threads)
    (hconsumer : st'.consumer.Knows d) (hphase : Phase d st'.running st'.consumer)
    (hpipeline : ∀ k < cfg.sinks, (batchesOf k tr ++ (st'.strands k).batches).flatten ++
      st'.consumer.unposted k = delivered d) : Represents cfg st' d (tr ++ []) :=
  h.consumer_step rfl (hmemory ▸ h.ring.memory) rfl (fun _ => rfl) rfl rfl
    (fun p => Frame.refl p d) hthreads hconsumer hphase hpipeline

end Represents

/-! ### One step -/

section Step

variable {cfg : Config} {st st' : Logger M} {d : State ℕ (LogEvent M)}
  {tr : List (Occurrence M)}

theorem batchesOf_sent {claim : ℤ → Occurrence M} {k : ℕ}
    (hclaim : ∀ s, batchesOf k [claim s] = []) (es : List (Event ℕ (LogEvent M))) :
    batchesOf k (sent claim es) = [] := by
  induction es with
  | nil => rfl
  | cons e es ih =>
      cases e with
      | claim p lo hi =>
          show batchesOf k ([claim lo] ++ sent claim es) = []
          rw [batchesOf_append, hclaim, ih, List.append_nil]
      | _ => exact ih

/-- The return of `log()` is no event of the ring. -/
theorem quiet_returned (p : ℕ) (call : LogCall M) (seq : ℤ) (q : Producer) :
    ringEvents (returned p call seq q) = [] ∧ claimsOf (returned p call seq q) = [] ∧
      ∀ k, batchesOf k (returned p call seq q) = [] := by
  cases q <;> exact ⟨rfl, rfl, fun _ => rfl⟩

theorem represents_send {p : ℕ} {a : Move} (h : Represents cfg st d tr)
    (hstep : st.send cfg p a = some st') :
    ∃ d', Represents cfg st' d' (tr ++ st.emit cfg (.send p a)) := by
  have hk := h.threads p
  cases ht : st.threads p with
  | log call seq q =>
      simp only [Logger.send, ht, Option.map_eq_some_iff] at hstep
      obtain ⟨⟨m', q'⟩, hq, rfl⟩ := hstep
      rw [ht] at hk
      obtain ⟨d', hring, hown, hprod, hs⟩ := holds_send (some call)
        (.logClaim p call) h.ring hk.1 hk.2 (fun _ => rfl) (fun _ => rfl) rfl hq
      obtain ⟨hret1, hret2, hret3⟩ := quiet_returned p call seq q
      have hring' := hring.quiet (returned p call seq q) (by rw [hret1]; rfl)
        hring.memory hret2 rfl rfl
      refine ⟨d', ?_⟩
      simp only [Logger.emit, Logger.action, ht]
      rw [List.append_assoc] at hring'
      refine h.thread hprod hring' ?_ rfl rfl rfl (fun _ => rfl) ?_
      · rw [← List.append_assoc]
        cases q' with
        | idle => trivial
        | _ =>
            rcases hs with hidle | hs
            · cases hidle
            · exact ⟨hown, hs.mono fun _ hmem => List.mem_append_left _ hmem⟩
      · intro k
        rw [batchesOf_append, hret3, List.append_nil]
        exact batchesOf_sent (fun _ => rfl) _
  | marker seq q =>
      simp only [Logger.send, ht, Option.map_eq_some_iff] at hstep
      obtain ⟨⟨m', q'⟩, hq, rfl⟩ := hstep
      rw [ht] at hk
      obtain ⟨d', hring, hown, hprod, hs⟩ := holds_send none
        (.shutdownClaim p) h.ring hk.1 hk.2 (fun _ => rfl) (fun _ => rfl)
        (show Fits none (setShutdownSignal _) from rfl) hq
      refine ⟨d', ?_⟩
      simp only [Logger.emit, Logger.action, ht]
      refine h.thread hprod hring ?_ rfl rfl rfl (fun _ => rfl)
        fun k => batchesOf_sent (fun _ => rfl) _
      cases q' with
      | idle => exact ⟨seq, List.mem_append_left _ (claimed_of_idle hk.2 hq)⟩
      | _ =>
          rcases hs with hidle | hs
          · cases hidle
          · exact ⟨hown, hs⟩
  | _ => simp [Logger.send, ht] at hstep

/-- The slot of the next published sequence holds a marker exactly when the
sequence is one. -/
theorem shutdownSignal_iff_marker {B : BufferSize} {m : Memory (LogEvent M)}
    (hm : Tracks B m d) {s : ℤ} (hs : s = d.processed + 1) (hpub : d.published s = true) :
    (m.get B s).shutdownSignal = true ↔ Marker d s := by
  obtain ⟨-, -, hcell⟩ := hm.enabled_process hs hpub
  simp [Marker, hcell]

/-- The consumer looks for the end of the published run behind `nextSeq`. -/
theorem represents_scan {nextSeq availableSequence seq : ℤ} (h : Represents cfg st d tr)
    (hc : st.consumer = .scan nextSeq availableSequence seq) {residue : List UInt8}
    (hstep : st.consume cfg residue = some st') : Represents cfg st' d (tr ++ []) := by
  have hk := h.consumer
  have hphase := h.phase
  have hpipe := h.pipeline
  simp only [hc] at hk hphase hpipe
  simp only [Logger.consume, hc] at hstep
  obtain ⟨h1, h2, h3, h4, h5, hpub⟩ := hk
  split at hstep
  · rename_i hseq
    obtain rfl := Option.some.inj hstep
    -- the flag of a sequence between `marked` and the cursor means what it says
    have hnew := (h.ring.memory.isAvailable_iff (by omega) (by omega)).mp hseq.2
    refine h.consumer_local rfl rfl ⟨h1, h2, h3, h4, by omega, ?_⟩ hphase hpipe
    intro s hlo hhi
    rcases eq_or_ne s seq with rfl | hne
    · exact hnew
    · exact hpub s hlo (by omega)
  · have hlt : (if seq ≤ availableSequence then seq - 1 else availableSequence) < seq := by
      split <;> omega
    generalize (if seq ≤ availableSequence then seq - 1 else availableSequence) = available
      at hstep hlt
    split at hstep
    · obtain rfl := Option.some.inj hstep
      exact h.consumer_local rfl rfl ⟨h1, h2, h3⟩ hphase hpipe
    · obtain rfl := Option.some.inj hstep
      exact h.consumer_local rfl rfl
        ⟨h1, h2, h3, fun s hlo hhi => hpub s hlo (by omega)⟩ hphase hpipe

/-- An event moves from its slot to the batch. -/
theorem represents_move {seq available : ℤ} {batch : List (LogEvent M)}
    (h : Represents cfg st d tr) (hc : st.consumer = .move seq available batch)
    (residue : List UInt8) :
    ∃ d', Represents cfg { st with
      memory := st.memory.put cfg.buffer seq
        { st.memory.get cfg.buffer seq with message := residue }
      consumer := .mark seq available (batch ++ [st.memory.get cfg.buffer seq]) } d'
      (tr ++ st.emit cfg (.consumer residue)) := by
  have hk := h.consumer
  have hphase := h.phase
  have hpipe := h.pipeline
  have hm := h.ring.memory
  simp only [hc] at hk hphase hpipe
  simp only [Logger.emit, hc]
  obtain ⟨h1, h2, h3, hpub, hseq, hnot⟩ := hk
  have hen := hm.enabled_process (s := seq) (by omega) hseq
  have hsig : (st.memory.get cfg.buffer seq).shutdownSignal = false := by
    rw [← Bool.not_eq_true, shutdownSignal_iff_marker hm (by omega) hseq]
    exact hnot
  refine ⟨_, h.consumer_step (run_singleton hen) ?_ rfl (fun _ => rfl) rfl rfl
    (fun p => frame_process p d _ _) rfl ?_ ?_ ?_⟩
  · exact tracks_residue (hm.process hen) (by simp only [apply]; omega)
      (by simp only [apply]; omega)
  · exact ⟨rfl, h2, h3, fun s hlo hhi => hpub s (by omega) hhi⟩
  · exact ⟨hphase.1, hphase.2.process hen hsig⟩
  · intro k hk
    rw [delivered_process hm.wf hen, hsig, ← hpipe k hk]
    simp [Consumer.unposted]

/-- The consumer meets a marker, which it processes and marks in one step. -/
theorem represents_stop {seq : ℤ} {batch : List (LogEvent M)} {residue : List UInt8}
    (h : Represents cfg st d tr) (hc : st.consumer = .stop seq batch) :
    ∃ d', Represents cfg { st with
      memory := st.memory.markConsumed cfg.buffer seq
      consumer := .store seq batch } d' (tr ++ st.emit cfg (.consumer residue)) := by
  have hk := h.consumer
  have hphase := h.phase
  have hpipe := h.pipeline
  have hm := h.ring.memory
  simp only [hc] at hk hphase hpipe
  simp only [Logger.emit, hc]
  obtain ⟨h1, h2, h3, hseq, hmk⟩ := hk
  have hsig := (shutdownSignal_iff_marker hm (by omega) hseq).mpr hmk
  have hen := hm.enabled_process (s := seq) (by omega) hseq
  have hm' := hm.process hen
  have hen' : Enabled cfg.buffer.size (apply d (.process seq (st.memory.get cfg.buffer seq)))
      (.mark seq) := ⟨by simp only [apply]; omega, by simp only [apply]; omega⟩
  refine ⟨apply (apply d (.process seq (st.memory.get cfg.buffer seq))) (.mark seq),
    h.consumer_step ?_ (hm'.mark hen') rfl (fun _ => rfl) rfl rfl
    (fun p => ⟨le_rfl, fun _ ho => ho, fun _ _ => rfl, fun _ _ => rfl⟩) rfl ?_ ?_ ?_⟩
  · simp [ringEvents, run, step_eq_some.mpr ⟨hen, rfl⟩, step_eq_some.mpr ⟨hen', rfl⟩]
  · exact ⟨rfl, rfl, by simp only [apply]; omega⟩
  · exact ⟨hphase.1, Clean.stop (d := d) hm.wf hphase.2 hen hsig⟩
  · intro k hk
    show _ = delivered (apply d (.process seq (st.memory.get cfg.buffer seq)))
    rw [delivered_process hm.wf hen, hsig, ← hpipe k hk]
    simp [Consumer.unposted]

/-- The slots up to `lastConsumed` go back to the producers. -/
theorem represents_gate {lastConsumed : ℤ} {batch : List (LogEvent M)} {residue : List UInt8}
    (h : Represents cfg st d tr) (hc : st.consumer = .gate lastConsumed batch) :
    ∃ d', Represents cfg { st with
      memory := st.memory.updateGatingSequence lastConsumed
      consumer :=
        if batch.isEmpty then .loop (lastConsumed + 1) else .post (lastConsumed + 1) 0 batch } d'
      (tr ++ st.emit cfg (.consumer residue)) := by
  have hk := h.consumer
  have hphase := h.phase
  have hpipe := h.pipeline
  simp only [hc] at hk hphase hpipe
  simp only [Logger.emit, hc]
  obtain ⟨h1, h2, h3⟩ := hk
  have hen : Enabled cfg.buffer.size d (.release lastConsumed) := ⟨h3, by omega⟩
  refine ⟨_, h.consumer_step (run_singleton hen) (h.ring.memory.release hen) rfl (fun _ => rfl)
    rfl rfl (fun p => frame_release p hen) rfl ?_ ?_ ?_⟩
  · have hnext : (apply d (.release lastConsumed)).processed = lastConsumed + 1 - 1 ∧
        (apply d (.release lastConsumed)).marked = lastConsumed + 1 - 1 ∧
        (apply d (.release lastConsumed)).released ≤ lastConsumed + 1 - 1 := by
      simp only [apply]
      omega
    cases batch <;> exact hnext
  · cases batch <;> exact hphase
  · intro k hk
    rw [show delivered (apply d (.release lastConsumed)) = delivered d from rfl, ← hpipe k hk]
    cases batch <;> simp [Consumer.unposted]

/-- The batch goes to the strands of the sinks, one after the other. -/
theorem represents_post {nextSeq : ℤ} {sink : ℕ} {batch : List (LogEvent M)}
    {residue : List UInt8} (h : Represents cfg st d tr)
    (hc : st.consumer = .post nextSeq sink batch) (hstep : st.consume cfg residue = some st') :
    Represents cfg st' d (tr ++ []) := by
  have hk := h.consumer
  have hphase := h.phase
  have hpipe := h.pipeline
  simp only [hc] at hk hphase hpipe
  simp only [Logger.consume, hc] at hstep
  split at hstep
  · obtain rfl := Option.some.inj hstep
    refine h.consumer_local rfl rfl hk hphase fun k hk => ?_
    rw [← hpipe k hk]
    rcases lt_trichotomy k sink with hlt | rfl | hgt
    · simp [Logger.postTo, Consumer.unposted, hlt, hlt.ne, Nat.lt_succ_of_lt hlt]
    · simp [Logger.postTo, Consumer.unposted]
    · simp [Logger.postTo, Consumer.unposted, hgt.ne', hgt.not_gt, Nat.not_lt.mpr hgt]
  · rename_i hall
    obtain rfl := Option.some.inj hstep
    refine h.consumer_local rfl rfl hk hphase fun k hk => ?_
    rw [← hpipe k hk]
    simp [Consumer.unposted, show k < sink by omega]

theorem represents_consume {residue : List UInt8} (h : Represents cfg st d tr)
    (hstep : st.consume cfg residue = some st') :
    ∃ d', Represents cfg st' d' (tr ++ st.emit cfg (.consumer residue)) := by
  have hk := h.consumer
  have hphase := h.phase
  have hpipe := h.pipeline
  have hm := h.ring.memory
  cases hc : st.consumer with
  | loop nextSeq =>
      simp only [hc] at hk hphase hpipe
      simp only [Logger.consume, hc] at hstep
      simp only [Logger.emit, hc]
      refine ⟨d, ?_⟩
      split at hstep
      · rename_i hr
        obtain rfl := Option.some.inj hstep
        exact h.consumer_local rfl rfl hk ⟨hr, by simpa [Phase, hr] using hphase⟩ hpipe
      · rename_i hr
        obtain rfl := Option.some.inj hstep
        exact h.consumer_local rfl rfl trivial
          ⟨by simpa using hr, by simpa [Phase, hr] using hphase⟩ hpipe
  | start nextSeq =>
      simp only [hc] at hk hphase hpipe
      simp only [Logger.consume, hc, Option.some.injEq] at hstep
      subst hstep
      simp only [Logger.emit, hc]
      obtain ⟨h1, h2, h3⟩ := hk
      refine ⟨d, h.consumer_local rfl rfl ⟨h1, h2, h3, hm.cursor.le, le_rfl, ?_⟩ hphase hpipe⟩
      intro s hlo hhi
      omega
  | scan nextSeq availableSequence seq =>
      simp only [Logger.emit, hc]
      exact ⟨d, represents_scan h hc hstep⟩
  | wait nextSeq =>
      simp only [hc] at hk hphase hpipe
      simp only [Logger.consume, hc] at hstep
      simp only [Logger.emit, hc]
      split at hstep
      · obtain rfl := Option.some.inj hstep
        refine ⟨d, h.consumer_local rfl rfl hk ?_ hpipe⟩
        simpa [Phase, hphase.1] using hphase.2
      · cases hstep
  | read seq available batch =>
      simp only [hc] at hk hphase hpipe
      simp only [Logger.consume, hc] at hstep
      simp only [Logger.emit, hc]
      obtain ⟨h1, h2, h3, hpub⟩ := hk
      refine ⟨d, ?_⟩
      split at hstep
      · rename_i hle
        have hseq := hpub seq le_rfl hle
        have hmarker := shutdownSignal_iff_marker hm (by omega) hseq
        split at hstep
        · rename_i hsig
          obtain rfl := Option.some.inj hstep
          exact h.consumer_local rfl rfl ⟨h1, h2, h3, hseq, hmarker.mp hsig⟩ hphase hpipe
        · rename_i hsig
          obtain rfl := Option.some.inj hstep
          exact h.consumer_local rfl rfl ⟨h1, h2, h3, hpub, hseq, fun hmk => hsig (hmarker.mpr hmk)⟩
            hphase hpipe
      · obtain rfl := Option.some.inj hstep
        refine h.consumer_local rfl rfl ⟨h1, h2, h3⟩ ?_ hpipe
        simpa [Phase, hphase.1] using hphase.2
  | move seq available batch =>
      simp only [Logger.consume, hc, Option.some.injEq] at hstep
      subst hstep
      exact represents_move h hc residue
  | mark seq available batch =>
      simp only [hc] at hk hphase hpipe
      simp only [Logger.consume, hc, Option.some.injEq] at hstep
      subst hstep
      simp only [Logger.emit, hc]
      obtain ⟨h1, h2, h3, hpub⟩ := hk
      have hen : Enabled cfg.buffer.size d (.mark seq) := ⟨by omega, by omega⟩
      refine ⟨_, h.consumer_step (run_singleton hen) (hm.mark hen) rfl (fun _ => rfl) rfl rfl
        (fun p => frame_mark p d _) rfl ?_ hphase hpipe⟩
      exact ⟨by simp only [apply]; omega, by simp only [apply]; omega,
        by simp only [apply]; omega, fun s hlo hhi => hpub s (by omega) hhi⟩
  | stop seq batch =>
      simp only [Logger.consume, hc, Option.some.injEq] at hstep
      subst hstep
      exact represents_stop h hc
  | store seq batch =>
      simp only [hc] at hk hphase hpipe
      simp only [Logger.consume, hc, Option.some.injEq] at hstep
      subst hstep
      simp only [Logger.emit, hc]
      exact ⟨d, h.consumer_local rfl rfl hk hphase.2 hpipe⟩
  | gate lastConsumed batch =>
      simp only [Logger.consume, hc, Option.some.injEq] at hstep
      subst hstep
      exact represents_gate h hc
  | post nextSeq sink batch =>
      simp only [Logger.emit, hc]
      exact ⟨d, represents_post h hc hstep⟩
  | exited => simp [Logger.consume, hc] at hstep

end Step

end Demiplane.Scroll

import Demiplane.Scroll.Delivery

/-!
`shutdown()` as a barrier for every caller. A call that goes all the way
returns behind its own flushes. A call that finds `running_` down returns at
once, and the consumer takes `running_` down when it meets the marker, before
it posts the batch it has collected: such a call can return while events wait
in the batch or on a strand. It is a barrier again when the flag is found down
only after the consumer has exited and the strands are done with their
batches.
-/

namespace Demiplane.Scroll

open Disruptor RingProtocol Transition

variable {M : Type*}

def Consumer.hasExited : Consumer M → Bool
  | .exited => true
  | _ => false

/-- At the first load of `shutdown()`. -/
def Thread.loads : Thread M → Bool
  | .load => true
  | _ => false

/-- The consumer has exited and no batch waits on a strand. -/
def Logger.Finished (cfg : Config) (st : Logger M) : Prop :=
  st.consumer.hasExited = true ∧ ∀ k < cfg.sinks, (st.strands k).batches.length = 0

instance (cfg : Config) (st : Logger M) : Decidable (st.Finished cfg) :=
  inferInstanceAs (Decidable (_ ∧ ∀ k < cfg.sinks, _ = 0))

/-- Whoever finds `running_` down finds the logger finished. -/
def LoadsFinished (cfg : Config) (st : Logger M) : Action M → Prop
  | .proceed p => (st.threads p).loads = true → st.running = false → st.Finished cfg
  | _ => True

instance (cfg : Config) (st : Logger M) (a : Action M) : Decidable (LoadsFinished cfg st a) :=
  match a with
  | .proceed _ => inferInstanceAs (Decidable (_ = true → _ = false → st.Finished cfg))
  | .callLog _ _ | .callShutdown _ | .send _ _ | .consumer _ | .strandStart _
  | .strandFinish _ => isTrue trivial

theorem Logger.Finished.exited {cfg : Config} {st : Logger M} (h : st.Finished cfg) :
    st.consumer = .exited := by
  have hc := h.1
  cases hst : st.consumer with
  | exited => rfl
  | _ => simp [hst, Consumer.hasExited] at hc

theorem Logger.Finished.drained {cfg : Config} {st : Logger M} (h : st.Finished cfg) {k : ℕ}
    (hk : k < cfg.sinks) : (st.strands k).batches = [] :=
  List.length_eq_zero_iff.mp (h.2 k hk)

section Run

variable {cfg : Config} {captured : M} {as : List (Action M)} {st : Logger M}

/-- Below the marker the consumer stopped at, every sequence was claimed by a
`log()`. -/
theorem logClaims_fst_below {B : BufferSize} {m : Memory (LogEvent M)}
    {d : State ℕ (LogEvent M)} {tr : List (Occurrence M)} (h : Holds B m d tr)
    (hstop : Stopped d) :
    ((logClaims tr).filter (·.1 < d.processed)).map Prod.fst = span 0 (d.processed - 1) := by
  have hle := h.memory.wf.processed_le
  have h0 := hstop.1
  have hspan : span 0 (d.processed - 1) = (span 0 d.cursor).filter (· < d.processed) := by
    have hfilter : (span 0 d.cursor).filter (· ≤ d.processed - 1) = span 0 (d.processed - 1) :=
      filter_span (by omega) (by omega)
    simpa only [Int.le_sub_one_iff] using hfilter.symm
  rw [hspan, ← h.claims, List.filter_map, logClaims]
  simp only [List.filter_filterMap, List.map_filterMap]
  rw [← List.filterMap_eq_map, List.filterMap_filter]
  refine List.filterMap_congr fun c hc => ?_
  obtain ⟨s, kind⟩ := c
  have hrange := h.range_of_mem hc
  by_cases hlt : s < d.processed
  · cases kind with
    | some call => simp [Option.filter_some, hlt]
    | none =>
        -- a marker below the first one would have stopped the consumer
        have hpub := h.memory.wf.processed_published s hrange.1 hlt.le
        obtain ⟨v, hv⟩ := Option.ne_none_iff_exists'.mp (h.memory.wf.published_cell s hpub)
        obtain ⟨kind', hkind', hfit⟩ := h.cells s v hv
        obtain rfl := h.kind_unique hc hkind'
        exact absurd ⟨v, hv, hfit⟩ (hstop.2.2 s hrange.1 hlt)
  · cases kind <;> simp [Option.filter_some, hlt]

/-- In a list numbered from `0` an entry stands at its own number. -/
theorem getElem?_of_numbered {β : Type*} {L : List (ℤ × β)} {n s : ℤ} {b : β}
    (hL : L.map Prod.fst = span 0 n) (hmem : (s, b) ∈ L) : L[s.toNat]? = some (s, b) := by
  obtain ⟨i, hi⟩ := List.getElem?_of_mem hmem
  have hs : (span 0 n)[i]? = some s := by
    rw [← hL, List.getElem?_map, hi]
    rfl
  have hi' : i = s.toNat := by
    simp only [span, List.getElem?_map, Option.map_eq_some_iff] at hs
    obtain ⟨j, hj, rfl⟩ := hs
    obtain ⟨hlt, hij⟩ := List.getElem?_eq_some_iff.mp hj
    rw [List.getElem_range] at hij
    omega
  rw [← hi', hi]

/-- When the logger is finished, every sink has processed every event whose
`log()` returned before the first call of `shutdown()`. -/
theorem processed_of_finished {d : State ℕ (LogEvent M)} {l r : List (Occurrence M)}
    {p q : ℕ} {call : LogCall M} {s : ℤ}
    (h : run (Logger.step cfg) (Logger.start captured) as = some st)
    (hd : Represents cfg st d (observed cfg captured as)) (hfin : st.Finished cfg)
    (htr : observed cfg captured as = l ++ .shutdownCall p :: r) (hfirst : shutdownCalls l = [])
    (hret : .logReturn q call s ∈ l) {k : ℕ} (hk : k < cfg.sinks) :
    (batchesOf k (observed cfg captured as)).flatten[s.toNat]? = some call.event := by
  have hphase := hd.phase
  rw [hfin.exited] at hphase
  obtain ⟨hclaim, hlt⟩ := claimed_below_markers h htr hfirst hret
    (marker_claimed hd.ring hphase.2.2.1)
  have hmem : (s, call) ∈ (logClaims (observed cfg captured as)).filter (·.1 < d.processed) := by
    refine List.mem_filter.mpr ⟨mem_logClaims.mpr ?_, by simpa using hlt⟩
    rw [htr, claimsOf_append]
    exact List.mem_append_left _ (mem_logClaims.mp hclaim)
  have hget := getElem?_of_numbered (logClaims_fst_below hd.ring hphase.2) hmem
  rw [processed_eq hd hfin.exited hk (hfin.drained hk), List.getElem?_map, hget]
  rfl

/-- Any number of threads call `log()` and `shutdown()`. In every interleaving
in which `running_` is found down only once the logger is finished, no call of
`shutdown()` returns before every sink has processed every event whose `log()`
returned before the first call of `shutdown()`: the event of sequence `s` is
the one numbered `s` among what the sink has processed. -/
theorem shutdown_barrier_of_loadsFinished (cfg : Config) (captured : M) (as : List (Action M))
    (st : Logger M) (h : run (Logger.step cfg) (Logger.start captured) as = some st)
    (hg : Guarded (Logger.step cfg) (LoadsFinished cfg) (Logger.start captured) as)
    (pre post : List (Occurrence M)) (p : ℕ)
    (hret : observed cfg captured as = pre ++ .shutdownReturn p :: post)
    (l r : List (Occurrence M)) (q : ℕ) (hcall : pre = l ++ .shutdownCall q :: r)
    (hfirst : shutdownCalls l = []) (p' : ℕ) (call : LogCall M) (s : ℤ)
    (hlog : .logReturn p' call s ∈ l) :
    ∀ k < cfg.sinks, (batchesOf k pre).flatten[s.toNat]? = some call.event := by
  obtain ⟨as₁, u, a, hrun, htaken, hmem, rfl⟩ :=
    run_before h hret fun _ _ ho => (thread_of_shutdownReturn ho).1
  obtain ⟨⟨d, hd⟩, hb⟩ := invariant_of_run hrun
  have hfin : u.Finished cfg := by
    obtain ⟨-, rfl, hthread⟩ := thread_of_shutdownReturn hmem
    rcases hthread with ⟨hload, hr⟩ | hstore
    · exact hg _ htaken (by rw [hload]; rfl) hr
    · have hwaits := hb.waits p
      rw [hstore] at hwaits
      refine ⟨?_, fun k hk => by rw [hwaits.2 k hk]; rfl⟩
      rw [hb.exited p (by rw [hstore]; rfl)]
      rfl
  exact fun k hk => processed_of_finished hrun hd hfin hcall hfirst hlog hk

end Run

/-- A second call of `shutdown()`, after the first has returned. -/
def lateShutdown : List (Action Unit) := logThenShutdown ++ [.callShutdown 2, .proceed 2]

theorem shutdown_barrier_lateShutdown :
    Guarded (Logger.step oneSink) (LoadsFinished oneSink) (Logger.start ()) lateShutdown ∧
      (batchesOf 0 (observed oneSink () lateShutdown).dropLast).flatten[(0 : ℤ).toNat]? =
        some greeting.event := by
  have hg : Guarded (Logger.step oneSink) (LoadsFinished oneSink) (Logger.start ())
      lateShutdown := by
    decide +kernel
  have hlog : .logReturn 0 greeting 0 ∈ (observed oneSink () lateShutdown).take 5 :=
    List.mem_of_getElem? (show _[4]? = some _ from rfl)
  exact ⟨hg, shutdown_barrier_of_loadsFinished oneSink () lateShutdown _ rfl hg _ [] 2 rfl
    ((observed oneSink () lateShutdown).take 5)
    ((observed oneSink () lateShutdown).dropLast.drop 6) 1 rfl rfl 0 greeting 0 hlog 0
    Nat.one_pos⟩

/-- Thread `0` logs, thread `1` sends its marker, and the consumer meets it.
Before the consumer posts the batch, thread `2` calls `shutdown()`. -/
def earlyShutdown : List (Action Unit) :=
  [Action.callLog 0 greeting] ++ sendAll 0 ++ [Action.callShutdown 1, .proceed 1] ++
    sendAll 1 ++ List.replicate 11 (Action.consumer []) ++
    [Action.callShutdown 2, .proceed 2]

theorem earlyShutdown_unprocessed :
    (run (Logger.step oneSink) (Logger.start ()) earlyShutdown).isSome = true ∧
      ∃ l r pre, observed oneSink () earlyShutdown = pre ++ [.shutdownReturn 2] ∧
        pre = l ++ .shutdownCall 1 :: r ∧ shutdownCalls l = [] ∧
        .logReturn 0 greeting 0 ∈ l ∧ (batchesOf 0 pre).flatten[(0 : ℤ).toNat]? = none :=
  ⟨rfl, (observed oneSink () earlyShutdown).take 5,
    (observed oneSink () earlyShutdown).dropLast.drop 6,
    (observed oneSink () earlyShutdown).dropLast, rfl, rfl, rfl,
    List.mem_of_getElem? (show _[4]? = some _ from rfl), rfl⟩

end Demiplane.Scroll

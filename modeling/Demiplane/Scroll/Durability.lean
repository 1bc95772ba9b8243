import Mathlib.Data.List.ReduceOption
import Demiplane.Scroll.Delivery
import Demiplane.Scroll.FileSink

/-!
From `log()` to the file. A strand runs the tasks of its sink one after the other; for a file sink
they are calls of `process` and `flush`. When `shutdown()` returns, each sink has run a flush of
this `shutdown()` behind all its batches, so its stream keeps nothing back and what the sink was
given is in its files, as far as these could be opened and written.
-/

namespace Demiplane.Scroll

open Disruptor RingProtocol Transition Text

variable {M : Type*}

/-! ### The work of a sink -/

/-- What a task does to its sink: an event is processed, or the sink is flushed. -/
def Task.work : Task M → List (Option (LogEvent M))
  | .processBatch batch => batch.map some
  | .flush _ => [none]

/-- What sink `k` does when the action ends a task of its strand. -/
def Logger.sinkWork (k : ℕ) (st : Logger M) : Action M → List (Option (LogEvent M))
  | .strandFinish j => if j = k then (st.strands k).active.toList.flatMap Task.work else []
  | _ => []

/-- What sink `k` has done after the actions. -/
def workOf (cfg : Config) (captured : M) (k : ℕ) (as : List (Action M)) :
    List (Option (LogEvent M)) :=
  trace (Logger.step cfg) (Logger.sinkWork k) (Logger.start captured) as

/-- The calls that the work of a sink is made of; the `i`-th of them meets the moment `now i`. -/
def sinkCallsFrom (now : ℕ → Moment) : ℕ → List (Option (LogEvent M)) → List (SinkCall M)
  | _, [] => []
  | i, some event :: work => .process event (now i) :: sinkCallsFrom now (i + 1) work
  | i, none :: work => .flush (now i) :: sinkCallsFrom now (i + 1) work

theorem entriesOf_sinkCallsFrom (format : LogEvent M → Text) (config : FileSinkConfig)
    (now : ℕ → Moment) (i : ℕ) (work : List (Option (LogEvent M))) :
    entriesOf format config (sinkCallsFrom now i work) =
      (work.reduceOption.filter config.shouldLog).map format := by
  induction work generalizing i with
  | nil => rfl
  | cons x work ih =>
    cases x with
    | none => exact ih (i + 1)
    | some event =>
      rw [sinkCallsFrom, entriesOf, ih, List.reduceOption_cons_of_some, List.filter_cons]
      split_ifs <;> rfl

theorem sinkCallsFrom_concat (now : ℕ → Moment) (i : ℕ) (work : List (Option (LogEvent M))) :
    sinkCallsFrom now i (work ++ [none]) =
      sinkCallsFrom now i work ++ [.flush (now (i + work.length))] := by
  induction work generalizing i with
  | nil => rfl
  | cons x work ih => cases x <;> simp [sinkCallsFrom, ih, Nat.add_assoc, Nat.add_comm 1]

theorem sinkCallsFrom_succeed {now : ℕ → Moment} (hnow : ∀ i, (now i).Succeeds) (i : ℕ)
    (work : List (Option (LogEvent M))) : ∀ c ∈ sinkCallsFrom now i work, c.Succeeds := by
  induction work generalizing i with
  | nil => simp [sinkCallsFrom]
  | cons x work ih => cases x <;> exact List.forall_mem_cons.mpr ⟨hnow i, ih (i + 1)⟩

/-- A sink whose last work is a flush has everything in its files. -/
theorem files_of_flushed (format : LogEvent M → Text) (config : FileSinkConfig)
    (disk : Text → Text) {first : Moment} (hfirst : first.Succeeds) {now : ℕ → Moment}
    (hnow : ∀ i, (now i).Succeeds) {work : List (Option (LogEvent M))}
    (hlast : work.getLast? = some none) :
    ∃ segments, entriesIn segments = (work.reduceOption.filter config.shouldLog).map format ∧
      ∀ path, ((Files.create first disk config).calls format (sinkCallsFrom now 0 work)).disk path =
        disk path ++ added segments path := by
  have hcreate := OnDisk.create disk config hfirst
  have hconfig : (Files.create first disk config).sink.config = config := Files.init_config
  obtain ⟨closed, s, h, hentries, -⟩ := hcreate.calls format (sinkCallsFrom_succeed hnow 0 work)
  refine ⟨closed ++ [s], ?_, h.disk_eq ?_⟩
  · rw [← entriesOf_sinkCallsFrom format config now 0 work]
    simpa [entriesIn, hconfig] using hentries
  · obtain ⟨before, rfl⟩ := List.getLast?_eq_some_iff.mp hlast
    obtain ⟨_, _, hbefore, -⟩ := hcreate.calls format (sinkCallsFrom_succeed hnow 0 before)
    rw [sinkCallsFrom_concat, Files.calls, List.foldl_append]
    exact Files.flush_pending hbefore.good (hnow _)

/-! ### What a step does to a sink -/

/-- The thread has posted its flush to the strand. -/
def Thread.passed (k : ℕ) : Thread M → Bool
  | .flush next _ => k < next
  | .poolJoin | .store => true
  | _ => false

/-- What an action does to the strand of a sink: nothing, or a task is added, or the first one is
done. -/
inductive StrandMove (k : ℕ) (st st' : Logger M) : List (Option (LogEvent M)) → Prop where
  | stay (htasks : (st'.strands k).tasks = (st.strands k).tasks) : StrandMove k st st' []
  | post (t : Task M) (htasks : (st'.strands k).tasks = (st.strands k).tasks ++ [t])
      (ht : st.consumer = .exited → t.batch? = none) : StrandMove k st st' []
  | finish (t : Task M) (htasks : (st.strands k).tasks = t :: (st'.strands k).tasks) :
      StrandMove k st st' t.work

/-- A consumer that has exited stays so, and who has passed a strand has passed it before or posts
its flush now. -/
structure SinkStep (k : ℕ) (st st' : Logger M) (work : List (Option (LogEvent M))) : Prop where
  strand : StrandMove k st st' work
  exited : st.consumer = .exited → st'.consumer = .exited
  passed : ∀ p, (st'.threads p).passed k = true →
    (st.threads p).passed k = true ∨ (st'.strands k).flushes p ≠ 0

section Step

variable {cfg : Config} {st st' : Logger M} {k : ℕ}

/-- A task is posted to some strand. -/
theorem StrandMove.of_post {j : ℕ} {t : Task M}
    (h : st'.strands = Function.update st.strands j ((st.strands j).post t))
    (ht : st.consumer = .exited → t.batch? = none) : StrandMove k st st' [] := by
  by_cases hj : k = j
  · subst hj
    exact .post t (by rw [h, Function.update_self, Strand.tasks_post]) ht
  · exact .stay (by rw [h, Function.update_of_ne hj])

/-- One thread goes on. -/
theorem passed_of_update {p q : ℕ} {t : Thread M}
    (hthreads : st'.threads = Function.update st.threads q t)
    (ht : t.passed k = true → (st.threads q).passed k = true ∨ (st'.strands k).flushes q ≠ 0)
    (hp : (st'.threads p).passed k = true) :
    (st.threads p).passed k = true ∨ (st'.strands k).flushes p ≠ 0 := by
  rw [hthreads] at hp
  by_cases hpq : p = q
  · subst hpq
    exact ht (by simpa using hp)
  · left
    rwa [Function.update_of_ne hpq] at hp

theorem SinkStep.of_thread {q : ℕ} {t : Thread M}
    (hthreads : st'.threads = Function.update st.threads q t)
    (ht : t.passed k = true → (st.threads q).passed k = true)
    (hstrands : st'.strands = st.strands) (hconsumer : st'.consumer = st.consumer) :
    SinkStep k st st' [] where
  strand := .stay (by rw [hstrands])
  exited := hconsumer.trans
  passed _ := passed_of_update hthreads fun h => .inl (ht h)

theorem sinkStep_proceed {q : ℕ} (hk : k < cfg.sinks) (h : st.proceed cfg q = some st') :
    SinkStep k st st' [] := by
  cases ht : st.threads q with
  | flush next remaining =>
      simp only [Logger.proceed, ht] at h
      split_ifs at h with hnext hzero <;> obtain rfl := Option.some.inj h
      · refine ⟨.of_post rfl fun _ => rfl, id, fun p => passed_of_update rfl fun hpassed => ?_⟩
        rcases Nat.lt_succ_iff_lt_or_eq.mp (of_decide_eq_true hpassed) with hlt | rfl
        · exact .inl (by rw [ht]; exact decide_eq_true hlt)
        · exact .inr (by simp [Logger.postTo, Logger.setThread])
      · refine .of_thread rfl (fun _ => ?_) rfl rfl
        rw [ht]
        exact decide_eq_true (hk.trans_le (Nat.le_of_not_lt hnext))
  | poolJoin =>
      simp only [Logger.proceed, ht] at h
      repeat' split at h
      all_goals cases h
      all_goals exact .of_thread rfl (fun _ => by rw [ht]; rfl) rfl rfl
  | _ =>
      simp only [Logger.proceed, ht] at h
      repeat' split at h
      all_goals cases h
      all_goals exact .of_thread rfl (fun hpassed => by simp [Thread.passed] at hpassed) rfl rfl

theorem sinkStep_strandStart {j : ℕ} (h : st.strandStart cfg j = some st') :
    SinkStep k st st' [] := by
  simp only [Logger.strandStart] at h
  repeat' split at h
  all_goals cases h
  rename_i t queue hs
  refine ⟨.stay ?_, id, fun _ => .inl⟩
  by_cases hj : k = j
  · subst hj
    simp [hs, Strand.tasks]
  · simp [Function.update_of_ne hj]

theorem strandMove_finish {j : ℕ} {t : Task M} {queue : List (Task M)}
    (hs : st.strands j = ⟨some t, queue⟩)
    (hstrands : st'.strands = Function.update st.strands j ⟨none, queue⟩) :
    StrandMove k st st' (st.sinkWork k (.strandFinish j)) := by
  by_cases hj : j = k
  · subst hj
    have hwork : st.sinkWork j (.strandFinish j) = t.work := by simp [Logger.sinkWork, hs]
    rw [hwork]
    refine .finish t ?_
    rw [hstrands, Function.update_self, hs]
    rfl
  · rw [Logger.sinkWork, if_neg hj]
    exact .stay (by rw [hstrands, Function.update_of_ne (Ne.symm hj)])

theorem sinkStep_strandFinish {j : ℕ} (h : st.strandFinish cfg j = some st') :
    SinkStep k st st' (st.sinkWork k (.strandFinish j)) := by
  simp only [Logger.strandFinish] at h
  repeat' split at h
  all_goals cases h
  · rename_i batch queue hs
    exact ⟨strandMove_finish hs rfl, id, fun _ => .inl⟩
  · rename_i q queue hs
    refine ⟨strandMove_finish hs rfl, id, fun p => passed_of_update (q := q) rfl fun hq => ?_⟩
    cases ht : st.threads q <;> rw [ht] at hq <;> exact .inl hq

theorem sinkStep_step {a : Action M} (hk : k < cfg.sinks) (h : st.step cfg a = some st') :
    SinkStep k st st' (st.sinkWork k a) := by
  cases a with
  | callLog p call | callShutdown p =>
      cases ht : st.threads p <;> simp only [Logger.step, ht] at h <;> cases h
      exact .of_thread rfl (fun hpassed => by cases hpassed) rfl rfl
  | send p a =>
      cases ht : st.threads p <;>
        simp only [Logger.step, Logger.send, ht, Option.map_eq_some_iff, reduceCtorEq] at h
      all_goals
        obtain ⟨⟨_, q⟩, -, rfl⟩ := h
        exact .of_thread rfl (fun hpassed => by cases q <;> cases hpassed) rfl rfl
  | proceed p => exact sinkStep_proceed hk h
  | consumer residue =>
      obtain ⟨hc, hthreads, hstrands⟩ := consume_strands h
      refine ⟨?_, fun hexited => absurd hexited hc, fun p hp => .inl (hthreads ▸ hp)⟩
      rcases hstrands with hstrands | ⟨j, batch, hstrands⟩
      · exact .stay (by rw [hstrands])
      · exact .of_post hstrands fun hexited => absurd hexited hc
  | strandStart j => exact sinkStep_strandStart h
  | strandFinish j => exact sinkStep_strandFinish h

/-! ### The flush behind the batches -/

/-- The sink has flushed last, and no batch will come any more. -/
structure Done (k : ℕ) (st : Logger M) (work : List (Option (LogEvent M))) : Prop where
  last : work.getLast? = some none
  batches : (st.strands k).batches = []
  exited : st.consumer = .exited

variable {work us : List (Option (LogEvent M))}

theorem Done.step (hd : Done k st work) (h : SinkStep k st st' us) : Done k st' (work ++ us) := by
  have hbatches := hd.batches
  rw [Strand.batches] at hbatches
  cases h.strand with
  | stay htasks =>
      exact ⟨by rw [List.append_nil, hd.last], by rwa [Strand.batches, htasks], h.exited hd.exited⟩
  | post t htasks ht =>
      refine ⟨by rw [List.append_nil, hd.last], ?_, h.exited hd.exited⟩
      simp [Strand.batches, htasks, hbatches, ht hd.exited]
  | finish t htasks =>
      rw [htasks] at hbatches
      cases t with
      | processBatch batch => cases hbatches
      | flush p => exact ⟨by simp [Task.work], hbatches, h.exited hd.exited⟩

/-- A flush that runs finds no batch behind it. -/
theorem done_of_flush (hb : Barrier cfg st) {p : ℕ}
    (hexited : st.consumer = .exited → st'.consumer = .exited)
    (htasks : (st.strands k).tasks = .flush p :: (st'.strands k).tasks) :
    Done k st' (work ++ [none]) := by
  refine ⟨by simp, List.filterMap_eq_nil_iff.mpr fun t ht => ?_, hexited ?_⟩
  · have hord := hb.ordered k
    rw [Strand.Ordered, htasks, List.pairwise_cons] at hord
    cases t with
    | flush q => rfl
    | processBatch batch => exact absurd (hord.1 _ ht rfl) (by simp [Task.batch?])
  · by_contra hc
    have hnone := hb.unflushed hc k p
    rw [Strand.flushes, htasks, List.countP_cons_of_pos (by simp [Task.isFlush])] at hnone
    omega

theorem flushes_step (hb : Barrier cfg st) {p : ℕ} (h : SinkStep k st st' us)
    (hp : (st.strands k).flushes p ≠ 0) :
    (st'.strands k).flushes p ≠ 0 ∨ Done k st' (work ++ us) := by
  rw [Strand.flushes] at hp
  cases h.strand with
  | stay htasks =>
      left
      rwa [Strand.flushes, htasks]
  | post t htasks ht =>
      left
      rw [Strand.flushes, htasks, List.countP_append]
      omega
  | finish t htasks =>
      rw [htasks] at hp
      cases t with
      | processBatch batch =>
          left
          rwa [List.countP_cons_of_neg (by simp [Task.isFlush])] at hp
      | flush q => exact .inr (done_of_flush hb h.exited htasks)

/-- A flush that was posted is still there, or the sink has done it. -/
def Settled (k : ℕ) (st : Logger M) (work : List (Option (LogEvent M))) : Prop :=
  ∀ p, (st.threads p).passed k = true → (st.strands k).flushes p ≠ 0 ∨ Done k st work

theorem Settled.step (hs : Settled k st work) (hb : Barrier cfg st) (h : SinkStep k st st' us) :
    Settled k st' (work ++ us) := by
  intro p hp
  rcases h.passed p hp with hbefore | hnow
  · rcases hs p hbefore with hflushes | hdone
    · exact flushes_step hb h hflushes
    · exact .inr (hdone.step h)
  · exact .inl hnow

end Step

section Run

variable {cfg : Config} {captured : M} {as : List (Action M)} {st : Logger M}

theorem settled_of_run {k : ℕ} (hk : k < cfg.sinks)
    (h : run (Logger.step cfg) (Logger.start captured) as = some st) :
    Settled k st (workOf cfg captured k as) := by
  have hinv := history_invariant
    (I := fun st hist => Invariant cfg st (hist.flatMap fun e => e.1.emit cfg e.2) ∧
      Settled k st (hist.flatMap fun e => e.1.sinkWork k e.2))
    ⟨invariant_start cfg captured, fun _ hp => nomatch hp⟩
    (fun st hist a st' ⟨hi, hs⟩ hstep => ⟨by simpa using invariant_step st _ a st' hi hstep,
      by simpa using hs.step hi.barrier (sinkStep_step hk hstep)⟩) h
  exact hinv.2

/-- The events among the work of a sink are those of the batches that it has processed. -/
theorem reduceOption_sinkWork (k : ℕ) (st : Logger M) (a : Action M) :
    (st.sinkWork k a).reduceOption = (batchesOf k (st.emit cfg a)).flatten := by
  cases a with
  | strandFinish j =>
      by_cases hj : j = k
      · subst hj
        cases hactive : (st.strands j).active with
        | none => simp [Logger.sinkWork, Logger.emit, hactive, batchesOf]
        | some t =>
            cases t <;> simp [Logger.sinkWork, Logger.emit, hactive, batchesOf, Task.work,
              List.reduceOption]
      · cases hactive : (st.strands j).active with
        | none => simp [Logger.sinkWork, Logger.emit, hactive, batchesOf, hj]
        | some t => cases t <;> simp [Logger.sinkWork, Logger.emit, hactive, batchesOf, hj]
  | send p a =>
      have hnone : batchesOf k (st.emit cfg (.send p a)) = [] := by
        cases ht : st.threads p with
        | log call seq q =>
            rw [Logger.emit, ht]
            rw [batchesOf_append, batchesOf_sent fun _ => rfl]
            cases q <;> rfl
        | marker seq q =>
            rw [Logger.emit, ht]
            exact batchesOf_sent (fun _ => rfl) _
        | _ => rw [Logger.emit, ht]; rfl
      rw [hnone]
      rfl
  | proceed p =>
      cases ht : st.threads p <;> cases hr : st.running <;>
        simp [Logger.sinkWork, Logger.emit, ht, hr, batchesOf]
  | consumer residue =>
      cases hc : st.consumer <;> simp [Logger.sinkWork, Logger.emit, hc, batchesOf]
  | _ => rfl

theorem reduceOption_workOf (cfg : Config) (captured : M) (k : ℕ) (as : List (Action M)) :
    (workOf cfg captured k as).reduceOption =
      (batchesOf k (observed cfg captured as)).flatten := by
  rw [workOf, observed, trace, trace]
  induction history (Logger.step cfg) (Logger.start captured) as with
  | nil => rfl
  | cons e hist ih =>
      rw [List.flatMap_cons, List.flatMap_cons, List.reduceOption_append, batchesOf_append,
        List.flatten_append, ih, reduceOption_sinkWork]

/-- Any number of threads log, and one of them shuts the logger down. In every interleaving, at the
moment `shutdown()` returns every file sink whose files could be opened and written has written
to its files, with nothing kept back, the entries of the events claimed below the marker that pass
its filters, whole and in the order of their sequences; among these events is every one whose
`log()` returned before `shutdown()` was called. -/
theorem shutdown_writes_files (cfg : Config) (captured : M) (as : List (Action M)) (st : Logger M)
    (h : run (Logger.step cfg) (Logger.start captured) as = some st)
    (hone : (shutdownCalls (observed cfg captured as)).length = 1) (p : ℕ)
    (hret : .shutdownReturn p ∈ st.emit cfg (.proceed p)) :
    ∃ below : List (ℤ × LogCall M),
      (∃ m, .shutdownClaim p m ∈ observed cfg captured as ∧
        below = (logClaims (observed cfg captured as)).filter (·.1 < m)) ∧
      (below.map Prod.fst).Pairwise (· < ·) ∧
      (∀ l r, observed cfg captured as = l ++ .shutdownCall p :: r →
        ∀ q call s, .logReturn q call s ∈ l → (s, call) ∈ below) ∧
      ∀ k < cfg.sinks, ∀ (format : LogEvent M → Text) (config : FileSinkConfig)
        (disk : Text → Text) (first : Moment) (now : ℕ → Moment), first.Succeeds →
        (∀ i, (now i).Succeeds) → ∃ segments, entriesIn segments =
            ((below.map (·.2.event)).filter config.shouldLog).map format ∧
          ∀ path, ((Files.create first disk config).calls format
              (sinkCallsFrom now 0 (workOf cfg captured k as))).disk path =
            disk path ++ added segments path := by
  obtain ⟨hemit, -, hthread⟩ := thread_of_shutdownReturn hret
  -- the run with the return at its end
  obtain ⟨st', hst'⟩ : ∃ st', st.step cfg (.proceed p) = some st' := by
    rcases hthread with ⟨hload, hr⟩ | hstore
    · exact ⟨_, by simp only [Logger.step, Logger.proceed, hload, hr]; rfl⟩
    · exact ⟨_, by simp only [Logger.step, Logger.proceed, hstore]; rfl⟩
  have hrun := run_snoc.mpr ⟨st, h, hst'⟩
  have htr : observed cfg captured (as ++ [.proceed p]) =
      observed cfg captured as ++ .shutdownReturn p :: [] := by
    rw [observed, trace_snoc _ _ h, hemit]
    rfl
  obtain ⟨m, hmarkers, hsinks⟩ := processed_of_shutdownReturn hrun htr hone.le
  have hclaim : (m, none) ∈ claimsOf (observed cfg captured as) :=
    marker_mem_claimsOf.mpr ⟨p, by simp [hmarkers]⟩
  have hstore : st.threads p = .store := by
    refine hthread.resolve_left fun hload => ?_
    have hlt := (accounts_of_run h).length_markers_lt (p := p) (by rw [hload.1]; rfl)
    rw [hmarkers, hone] at hlt
    exact absurd hlt (lt_irrefl 1)
  refine ⟨_, ⟨m, mem_markers.mp (by simp [hmarkers]), rfl⟩, ?_, ?_, ?_⟩
  · refine (claims_pairwise h).sublist (List.Sublist.trans ?_ (logClaims_fst_sublist _))
    exact List.filter_sublist.map Prod.fst
  · intro l r hcall q call s hlog
    have hfirst : shutdownCalls l = [] := by
      rw [hcall, shutdownCalls_append, List.length_append] at hone
      simp only [shutdownCalls, List.length_cons] at hone
      exact List.length_eq_zero_iff.mp (by omega)
    obtain ⟨hl, hlt⟩ := claimed_below_markers h hcall hfirst hlog hclaim
    refine List.mem_filter.mpr ⟨mem_logClaims.mpr ?_, by simpa using hlt⟩
    rw [hcall, claimsOf_append]
    exact List.mem_append_left _ (mem_logClaims.mp hl)
  · intro k hk format config disk first now hfirst hnow
    have hdone : Done k st (workOf cfg captured k as) := by
      refine (settled_of_run hk h p (by rw [hstore]; rfl)).resolve_left (not_not.mpr ?_)
      have hwaits := (invariant_of_run h).barrier.waits p
      rw [hstore] at hwaits
      have hle := flushes_le_pending hk st.strands p
      have hzero := hwaits.1
      omega
    rw [← hsinks k hk, ← reduceOption_workOf]
    exact files_of_flushed format config disk hfirst hnow hdone.last

end Run

/-- The run before the last step of `shutdown()`. -/
def logAndWait : List (Action Unit) := logThenShutdown.dropLast

/-- The greeting stands in the file when `shutdown()` returns. -/
theorem shutdown_writes_greeting :
    ((Files.create (quietly "0") (fun _ => []) smallFiles).calls lightEntry
        (sinkCallsFrom (fun _ => quietly "1") 0 (workOf oneSink () 0 logAndWait))).disk
          (ascii "log_0") = ascii "INF hi\n" ∧
      ∃ (below : List (ℤ × LogCall Unit)) (segments : List Segment),
        (0, greeting) ∈ below ∧ entriesIn segments =
          ((below.map (·.2.event)).filter smallFiles.shouldLog).map lightEntry ∧
        ∀ path, ((Files.create (quietly "0") (fun _ => []) smallFiles).calls lightEntry
            (sinkCallsFrom (fun _ => quietly "1") 0 (workOf oneSink () 0 logAndWait))).disk
              path = added segments path := by
  have hlog : .logReturn 0 greeting 0 ∈ (observed oneSink () logAndWait).take 5 :=
    List.mem_of_getElem? (show _[4]? = some _ from rfl)
  obtain ⟨below, -, -, hreturned, hfiles⟩ := shutdown_writes_files oneSink () logAndWait _ rfl rfl 1
    (List.mem_singleton.mpr rfl)
  obtain ⟨segments, hentries, hdisk⟩ := hfiles 0 Nat.one_pos lightEntry smallFiles (fun _ => [])
    (quietly "0") (fun _ => quietly "1") ⟨rfl, rfl⟩ fun _ => ⟨rfl, rfl⟩
  refine ⟨rfl, below, segments, ?_, hentries, hdisk⟩
  exact hreturned ((observed oneSink () logAndWait).take 5)
    ((observed oneSink () logAndWait).drop 6) rfl 0 greeting 0 hlog

end Demiplane.Scroll

import Demiplane.Scroll.Barrier

/-!
Delivery up to `shutdown()`. What comes out of the ring before the first
marker is what was claimed below it (`delivered_eq`). With one call of
`shutdown()` the first marker is that call's, because a thread claims at most
as many markers as it makes calls (`Accounts`), and the barrier turns what has
come out of the ring into what every sink has processed.
-/

namespace Demiplane.Scroll

open Disruptor RingProtocol Transition

variable {M : Type*} {tr : List (Occurrence M)}

/-! ### Calls, claims and returns -/

/-- The sequences claimed by `log()` with the call they were claimed for, in
the order of the claims. -/
def logClaims (tr : List (Occurrence M)) : List (ℤ × LogCall M) :=
  (claimsOf tr).filterMap fun c => c.2.map fun call => (c.1, call)

/-- The threads that called `shutdown()`, in the order of the calls. -/
def shutdownCalls : List (Occurrence M) → List ℕ
  | [] => []
  | .shutdownCall p :: tr => p :: shutdownCalls tr
  | _ :: tr => shutdownCalls tr

/-- The markers with the threads that claimed them. -/
def markers : List (Occurrence M) → List (ℕ × ℤ)
  | [] => []
  | .shutdownClaim p s :: tr => (p, s) :: markers tr
  | _ :: tr => markers tr

@[simp] theorem shutdownCalls_append (tr us : List (Occurrence M)) :
    shutdownCalls (tr ++ us) = shutdownCalls tr ++ shutdownCalls us := by
  induction tr with
  | nil => rfl
  | cons o tr ih => cases o <;> simp [shutdownCalls, ih]

@[simp] theorem markers_append (tr us : List (Occurrence M)) :
    markers (tr ++ us) = markers tr ++ markers us := by
  induction tr with
  | nil => rfl
  | cons o tr ih => cases o <;> simp [markers, ih]

theorem mem_markers {p : ℕ} {s : ℤ} :
    (p, s) ∈ markers tr ↔ .shutdownClaim p s ∈ tr := by
  induction tr with
  | nil => simp [markers]
  | cons o tr ih => cases o <;> simp [markers, ih]

theorem marker_mem_claimsOf {s : ℤ} :
    (s, none) ∈ claimsOf tr ↔ ∃ p, (p, s) ∈ markers tr := by
  induction tr with
  | nil => simp [claimsOf, markers]
  | cons o tr ih => cases o <;> simp [claimsOf, markers, ih, exists_or]

theorem mem_logClaims {s : ℤ} {call : LogCall M} :
    (s, call) ∈ logClaims tr ↔ (s, some call) ∈ claimsOf tr := by
  simp only [logClaims, List.mem_filterMap, Option.map_eq_some_iff, Prod.mk.injEq]
  constructor
  · rintro ⟨⟨t, kind⟩, hmem, c, rfl, rfl, rfl⟩
    exact hmem
  · intro hmem
    exact ⟨(s, some call), hmem, call, rfl, rfl, rfl⟩

theorem logClaim_mem_claimsOf {p : ℕ} {s : ℤ} {call : LogCall M}
    (h : .logClaim p call s ∈ tr) : (s, some call) ∈ claimsOf tr := by
  obtain ⟨pre, post, rfl⟩ := List.append_of_mem h
  simp [claimsOf]

theorem logClaims_fst_sublist (tr : List (Occurrence M)) :
    ((logClaims tr).map Prod.fst).Sublist ((claimsOf tr).map Prod.fst) := by
  rw [logClaims]
  induction claimsOf tr with
  | nil => exact List.Sublist.slnil
  | cons c cs ih =>
      rcases c with ⟨s, _ | call⟩
      · simpa using ih.cons s
      · simpa using ih.cons_cons s

/-- A claim still to be made by a thread inside `shutdown()`. -/
def Thread.owes : Thread M → ℕ
  | .load => 1
  | .marker _ (.loadCursor _) | .marker _ (.loadGating _ _) => 1
  | .marker _ (.spin _ _) | .marker _ (.compareAndSet _ _) => 1
  | _ => 0

/-- A thread claims no more markers than it calls `shutdown()`. -/
def Accounts (st : Logger M) (tr : List (Occurrence M)) : Prop :=
  ∀ p, ((markers tr).map Prod.fst).count p + (st.threads p).owes ≤ (shutdownCalls tr).count p

theorem accounts_start (captured : M) : Accounts (Logger.start captured) [] :=
  fun _ => le_rfl

/-- A thread goes on; what it claims, it owed or has just called for. -/
theorem Accounts.thread {st st' : Logger M} {tr us : List (Occurrence M)} {p : ℕ}
    {t : Thread M} (h : Accounts st tr)
    (hthreads : st'.threads = Function.update st.threads p t)
    (hmine : ∀ c ∈ markers us, c.1 = p)
    (hself : (markers us).length + t.owes ≤ (st.threads p).owes + (shutdownCalls us).count p) :
    Accounts st' (tr ++ us) := by
  intro r
  have hr := h r
  rw [hthreads, markers_append, List.map_append, List.count_append, shutdownCalls_append,
    List.count_append]
  by_cases hrp : r = p
  · subst hrp
    have hlen : ((markers us).map Prod.fst).count r ≤ (markers us).length :=
      List.count_le_length.trans_eq (by simp)
    rw [Function.update_self]
    omega
  · have hzero : ((markers us).map Prod.fst).count r = 0 := by
      refine List.count_eq_zero.mpr fun hmem => ?_
      obtain ⟨c, hc, rfl⟩ := List.mem_map.mp hmem
      exact hrp (hmine c hc)
    rw [Function.update_of_ne hrp]
    omega

/-- Nothing is claimed and no thread moves. -/
theorem Accounts.others {st st' : Logger M} {tr us : List (Occurrence M)} (h : Accounts st tr)
    (hthreads : st'.threads = st.threads) (hus : markers us = []) : Accounts st' (tr ++ us) := by
  refine h.thread (p := 0) (t := st.threads 0) ?_ ?_ ?_
  · rw [hthreads, Function.update_eq_self]
  · simp [hus]
  · rw [hus]
    simp

theorem markers_sent_logClaim (p : ℕ) (call : LogCall M)
    (es : List (Event ℕ (LogEvent M))) : markers (sent (.logClaim p call) es) = [] := by
  induction es with
  | nil => rfl
  | cons e es ih => cases e <;> exact ih

theorem owes_of_claiming {q : Producer} (h : Claiming q) (seq : ℤ) :
    (Thread.marker seq q : Thread M).owes = 1 := by
  cases q <;> first | rfl | exact h.elim

theorem accounts_send {cfg : Config} {st st' : Logger M} {p : ℕ}
    {a : Move} (hinv : Invariant cfg st tr) (h : Accounts st tr)
    (hstep : st.send cfg p a = some st') : Accounts st' (tr ++ st.emit cfg (.send p a)) := by
  obtain ⟨⟨d, hd⟩, -⟩ := hinv
  have hk := hd.threads p
  cases ht : st.threads p with
  | log call seq q =>
      simp only [Logger.send, ht, Option.map_eq_some_iff] at hstep
      obtain ⟨⟨m', q'⟩, hq, rfl⟩ := hstep
      simp only [Logger.emit, ht]
      have hnone : markers (sent (.logClaim p call)
          (q.emit p st.memory (st.action cfg p a)) ++ returned p call seq q) = [] := by
        rw [markers_append, markers_sent_logClaim]
        cases q <;> rfl
      refine h.thread rfl (by simp [hnone]) ?_
      rw [hnone]
      cases q' <;> exact Nat.zero_le _
  | marker seq q =>
      rw [ht] at hk
      simp only [Logger.send, ht, Option.map_eq_some_iff] at hstep
      obtain ⟨⟨m', q'⟩, hq, rfl⟩ := hstep
      simp only [Logger.emit, Logger.action, ht]
      have hcases := sendStep_of_step (p := p) hk.2 hq
      generalize q.emit p st.memory _ = es at hcases
      cases hcases with
      | quiet hq hq' hs =>
          refine h.thread rfl (by simp [sent, markers]) ?_
          rw [ht, owes_of_claiming hq]
          cases q' <;> first | exact le_rfl | exact hq'.elim
      | claim hcur =>
          refine h.thread rfl (by simp [sent, markers]) ?_
          rw [ht]
          exact le_rfl
      | write => exact h.thread rfl (by simp [sent, markers]) (Nat.zero_le _)
      | publish => exact h.thread rfl (by simp [sent, markers]) (Nat.zero_le _)
      | signal => exact h.thread rfl (by simp [sent, markers]) (Nat.zero_le _)
  | _ => simp [Logger.send, ht] at hstep

theorem accounts_proceed {cfg : Config} {st st' : Logger M} {p : ℕ}
    (h : Accounts st tr) (hstep : st.proceed cfg p = some st') :
    Accounts st' (tr ++ st.emit cfg (.proceed p)) := by
  have hnone : markers (st.emit cfg (.proceed p)) = [] := by
    simp only [Logger.emit]
    repeat' split
    all_goals rfl
  have hst' : ∃ t : Thread M, st'.threads = Function.update st.threads p t ∧
      t.owes ≤ (st.threads p).owes := by
    simp only [Logger.proceed] at hstep
    cases ht : st.threads p <;> simp only [ht] at hstep
    all_goals repeat' split at hstep
    all_goals cases hstep
    all_goals exact ⟨_, rfl, by simp [Thread.owes]⟩
  obtain ⟨t, hthreads, howes⟩ := hst'
  refine h.thread hthreads (by simp [hnone]) ?_
  rw [hnone]
  simp only [List.length_nil]
  omega

theorem accounts_step {cfg : Config} (st : Logger M) (tr : List (Occurrence M)) (a : Action M)
    (st' : Logger M) (hinv : Invariant cfg st tr) (h : Accounts st tr)
    (hstep : st.step cfg a = some st') : Accounts st' (tr ++ st.emit cfg a) := by
  cases a with
  | callLog p call =>
      cases ht : st.threads p <;> simp only [Logger.step, ht] at hstep <;> cases hstep
      exact h.thread rfl (by simp [Logger.emit, markers]) (Nat.zero_le _)
  | callShutdown p =>
      cases ht : st.threads p <;> simp only [Logger.step, ht] at hstep <;> cases hstep
      refine h.thread rfl (by simp [Logger.emit, markers]) ?_
      simp [Logger.emit, markers, shutdownCalls, Thread.owes]
  | send p a => exact accounts_send hinv h hstep
  | proceed p => exact accounts_proceed h hstep
  | consumer residue =>
      refine h.others (consume_strands hstep).2.1 ?_
      simp only [Logger.emit]
      split <;> rfl
  | strandStart k =>
      simp only [Logger.step, Logger.strandStart] at hstep
      repeat' split at hstep
      all_goals cases hstep
      exact h.others rfl rfl
  | strandFinish k =>
      have hnone : markers (st.emit cfg (.strandFinish k)) = [] := by
        simp only [Logger.emit]
        split <;> rfl
      simp only [Logger.step, Logger.strandFinish] at hstep
      repeat' split at hstep
      all_goals cases hstep
      · exact h.others rfl hnone
      · rename_i p queue hs
        refine h.thread (p := p) rfl (by simp [hnone]) ?_
        rw [hnone]
        cases ht : st.threads p <;> simp [Thread.countDown, Thread.owes]

/-! ### Runs -/

section Run

variable {cfg : Config} {captured : M} {as : List (Action M)} {st : Logger M}

theorem accounts_of_run (h : run (Logger.step cfg) (Logger.start captured) as = some st) :
    Accounts st (observed cfg captured as) := by
  have hboth := trace_invariant (Logger.emit cfg)
    (I := fun st tr => Invariant cfg st tr ∧ Accounts st tr)
    ⟨invariant_start cfg captured, accounts_start captured⟩
    (fun st tr a st' hi hstep => ⟨invariant_step st tr a st' hi.1 hstep,
      accounts_step st tr a st' hi.1 hi.2 hstep⟩) h
  exact hboth.2

/-- There are no more markers than calls, and none at all before the only
call has claimed its own. -/
theorem Accounts.length_markers (h : Accounts st tr) :
    (markers tr).length ≤ (shutdownCalls tr).length := by
  have hsub : ((markers tr).map Prod.fst).Subperm (shutdownCalls tr) :=
    List.subperm_ext_iff.mpr fun p _ => (Nat.le_add_right _ _).trans (h p)
  simpa using hsub.length_le

theorem Accounts.length_markers_lt (h : Accounts st tr) {p : ℕ}
    (hp : (st.threads p).owes = 1) : (markers tr).length < (shutdownCalls tr).length := by
  have hsub : (p :: (markers tr).map Prod.fst).Subperm (shutdownCalls tr) := by
    refine List.subperm_ext_iff.mpr fun r _ => ?_
    have hr := h r
    rw [List.count_cons]
    by_cases hrp : p = r
    · subst hrp
      simp only [beq_self_eq_true, if_true]
      omega
    · simp only [beq_iff_eq, hrp, if_false]
      omega
  have hlength := hsub.length_le
  rw [List.length_cons, List.length_map] at hlength
  exact hlength

theorem mem_sent {claim : ℤ → Occurrence M} {es : List (Event ℕ (LogEvent M))}
    {o : Occurrence M} (h : o ∈ sent claim es) : (∃ e, o = .ring e) ∨ ∃ s, o = claim s := by
  induction es with
  | nil => simp [sent] at h
  | cons e es ih =>
      cases e with
      | claim p lo hi =>
          simp only [sent, List.mem_cons] at h
          rcases h with rfl | rfl | h
          · exact .inl ⟨_, rfl⟩
          · exact .inr ⟨lo, rfl⟩
          · exact ih h
      | _ =>
          simp only [sent, List.mem_cons] at h
          rcases h with rfl | h
          · exact .inl ⟨_, rfl⟩
          · exact ih h

/-- What a thread in the sequencer shows. -/
theorem mem_emit_send {p : ℕ} {a : Move} {o : Occurrence M}
    (h : o ∈ st.emit cfg (.send p a)) :
    (∃ e, o = .ring e) ∨ (∃ call s, o = .logClaim p call s) ∨ (∃ s, o = .shutdownClaim p s) ∨
      ∃ call s, o = .logReturn p call s ∧ st.threads p = .log call s .signal := by
  simp only [Logger.emit] at h
  cases ht : st.threads p with
  | log call seq q =>
      simp only [ht, List.mem_append] at h
      rcases h with h | h
      · rcases mem_sent h with he | ⟨s, rfl⟩
        · exact .inl he
        · exact .inr (.inl ⟨call, s, rfl⟩)
      · cases q <;> simp [returned] at h
        exact .inr (.inr (.inr ⟨call, seq, h, rfl⟩))
  | marker seq q =>
      simp only [ht] at h
      rcases mem_sent h with he | ⟨s, rfl⟩
      · exact .inl he
      · exact .inr (.inr (.inl ⟨s, rfl⟩))
  | _ => simp [ht] at h

theorem thread_of_logReturn {a : Action M} {p : ℕ} {call : LogCall M} {s : ℤ}
    (h : .logReturn p call s ∈ st.emit cfg a) : st.threads p = .log call s .signal := by
  cases a with
  | send r a =>
      obtain ⟨rfl, ht⟩ : p = r ∧ st.threads r = .log call s .signal := by
        simpa using mem_emit_send h
      exact ht
  | _ =>
      simp only [Logger.emit] at h
      repeat' split at h
      all_goals simp at h

theorem thread_of_shutdownReturn {a : Action M} {p : ℕ}
    (h : .shutdownReturn p ∈ st.emit cfg a) :
    st.emit cfg a = [.shutdownReturn p] ∧ a = .proceed p ∧
      (st.threads p = .load ∧ st.running = false ∨ st.threads p = .store) := by
  cases a with
  | proceed r =>
      simp only [Logger.emit] at h ⊢
      cases ht : st.threads r with
      | load =>
          cases hr : st.running <;> simp [ht, hr] at h
          subst h
          simp [ht]
      | store =>
          simp only [ht, List.mem_singleton, Occurrence.shutdownReturn.injEq] at h
          subst h
          simp [ht]
      | _ => simp [ht] at h
  | send r a => simpa using mem_emit_send h
  | _ =>
      simp only [Logger.emit] at h
      repeat' split at h
      all_goals simp at h

theorem emit_of_shutdownCall {a : Action M} {p : ℕ} (h : .shutdownCall p ∈ st.emit cfg a) :
    st.emit cfg a = [.shutdownCall p] := by
  cases a with
  | callShutdown r =>
      simp only [Logger.emit, List.mem_singleton, Occurrence.shutdownCall.injEq] at h
      rw [h, Logger.emit]
  | send r a => simpa using mem_emit_send h
  | _ =>
      simp only [Logger.emit] at h
      repeat' split at h
      all_goals simp at h

/-- An occurrence that a step shows alone is shown after a run that shows
what comes before it. -/
theorem run_before {o : Occurrence M} {pre post : List (Occurrence M)}
    (h : run (Logger.step cfg) (Logger.start captured) as = some st)
    (htr : observed cfg captured as = pre ++ o :: post)
    (halone : ∀ (u : Logger M) a, o ∈ u.emit cfg a → u.emit cfg a = [o]) :
    ∃ as₁ u a, run (Logger.step cfg) (Logger.start captured) as₁ = some u ∧
      (u, a) ∈ history (Logger.step cfg) (Logger.start captured) as ∧
      o ∈ u.emit cfg a ∧ pre = observed cfg captured as₁ := by
  obtain ⟨as₁, u, a, us, vs, hrun, htaken, hemit, hpre⟩ := trace_split h htr
  have hmem : o ∈ u.emit cfg a := by simp [hemit]
  have hone := halone u a hmem
  rw [hone, eq_comm, List.append_eq_singleton_iff] at hemit
  rcases hemit with ⟨rfl, -⟩ | ⟨-, hnil⟩
  · exact ⟨as₁, u, a, hrun, htaken, hmem, by rw [hpre, List.append_nil]; rfl⟩
  · cases hnil

/-- A call of `log()` returns with the sequence it has claimed. -/
theorem claimed_of_returned {p : ℕ} {call : LogCall M} {s : ℤ}
    (h : run (Logger.step cfg) (Logger.start captured) as = some st)
    (hret : .logReturn p call s ∈ observed cfg captured as) :
    .logClaim p call s ∈ observed cfg captured as := by
  obtain ⟨pre, post, htr⟩ := List.append_of_mem hret
  obtain ⟨as₁, u, a, us, vs, hrun, -, hemit, hpre⟩ := trace_split h htr
  obtain ⟨d, hd⟩ := (invariant_of_run hrun).represents
  have hk := hd.threads p
  rw [thread_of_logReturn (by rw [hemit]; simp : .logReturn p call s ∈ u.emit cfg a)] at hk
  rw [htr, hpre]
  exact List.mem_append_left _ (List.mem_append_left _ hk.2)

/-- Before the first call of `shutdown()` no marker is claimed. -/
theorem markers_before_call {p : ℕ} {pre post : List (Occurrence M)}
    (h : run (Logger.step cfg) (Logger.start captured) as = some st)
    (htr : observed cfg captured as = pre ++ .shutdownCall p :: post)
    (hfirst : shutdownCalls pre = []) : markers pre = [] := by
  obtain ⟨as₁, u, a, hrun, -, -, rfl⟩ := run_before h htr fun _ _ => emit_of_shutdownCall
  have := (accounts_of_run hrun).length_markers
  rw [hfirst] at this
  exact List.length_eq_zero_iff.mp (by simpa using this)

/-! ### Delivery -/

/-- A marker of the protocol state was claimed by a `shutdown()`. -/
theorem marker_claimed {B : BufferSize} {m : Memory (LogEvent M)} {d : State ℕ (LogEvent M)}
    (h : Holds B m d tr) {s : ℤ} (hs : Marker d s) :
    (s, none) ∈ claimsOf tr := by
  obtain ⟨v, hv, hsig⟩ := hs
  obtain ⟨kind, hmem, hfit⟩ := h.cells s v hv
  cases kind with
  | none => exact hmem
  | some call =>
      obtain rfl : v = call.event := hfit
      simp [LogCall.event] at hsig

/-- What comes out of the ring when the consumer has stopped at a marker: the
events claimed below it. -/
theorem delivered_eq {B : BufferSize} {m : Memory (LogEvent M)} {d : State ℕ (LogEvent M)}
    (h : Holds B m d tr) (hstop : Stopped d) :
    delivered d = ((logClaims tr).filter (·.1 < d.processed)).map (·.2.event) := by
  have hspan : span 0 d.processed =
      ((claimsOf tr).filter (·.1 ≤ d.processed)).map Prod.fst := by
    have hle := h.memory.wf.processed_le
    rw [← filter_span (by have := hstop.1; omega) hle, ← h.claims, List.filter_map]
    rfl
  rw [delivered, hspan, logClaims]
  simp only [List.filterMap_map, List.filter_filterMap, List.map_filterMap,
    List.filterMap_filter]
  refine List.filterMap_congr fun c hc => ?_
  obtain ⟨s, kind⟩ := c
  have hrange := h.range_of_mem hc
  by_cases hle : s ≤ d.processed
  · -- a processed sequence holds what its claimer wrote
    have hpub := h.memory.wf.processed_published s hrange.1 hle
    obtain ⟨v, hv⟩ := Option.ne_none_iff_exists'.mp (h.memory.wf.published_cell s hpub)
    obtain ⟨kind', hkind', hfit⟩ := h.cells s v hv
    obtain rfl := h.kind_unique hc hkind'
    cases kind with
    | none =>
        have hsig : v.shutdownSignal = true := hfit
        simp [hle, hv, hsig]
    | some call =>
        obtain rfl : v = call.event := hfit
        have hlt : s < d.processed := by
          rcases eq_or_lt_of_le hle with rfl | hlt
          · exact absurd (h.kind_unique hc (marker_claimed h hstop.2.1)) (by simp)
          · exact hlt
        simp [hle, hv, hlt, LogCall.event, Option.filter_some]
  · have hge : d.processed ≤ s := by omega
    cases kind <;> simp [hle, hge]

/-- Claims made later do not change what was claimed below a marker. -/
theorem logClaims_below {pre post : List (Occurrence M)} {s m : ℤ} {kind : Option (LogCall M)}
    (hpair : ((claimsOf (pre ++ post)).map Prod.fst).Pairwise (· < ·))
    (hm : (m, kind) ∈ claimsOf pre) (hs : s ≤ m) :
    (logClaims (pre ++ post)).filter (·.1 < s) = (logClaims pre).filter (·.1 < s) := by
  rw [claimsOf_append, List.map_append, List.pairwise_append] at hpair
  have hlater : (logClaims post).filter (·.1 < s) = [] := by
    refine List.filter_eq_nil_iff.mpr fun c hc => ?_
    have hmem := mem_logClaims.mp hc
    have := hpair.2.2 m (List.mem_map_of_mem hm) c.1 (List.mem_map_of_mem hmem)
    simp only [decide_eq_true_eq, not_lt]
    omega
  have hsplit : logClaims (pre ++ post) = logClaims pre ++ logClaims post := by
    simp [logClaims]
  rw [hsplit, List.filter_append, hlater, List.append_nil]

/-- `running_` is down only after the consumer has met a marker. -/
theorem Phase.stopped {d : State ℕ (LogEvent M)} {c : Consumer M} (h : Phase d false c) :
    Stopped d := by
  cases c with
  | loop nextSeq => simpa [Phase] using h
  | gate lastConsumed batch => simpa [Phase] using h
  | post nextSeq sink batch => simpa [Phase] using h
  | exited => exact h.2
  | _ => exact absurd h.1 (by simp)

/-- When the consumer has exited and a strand holds no batch, its sink has
processed what was claimed below the first marker. -/
theorem processed_eq {d : State ℕ (LogEvent M)}
    (h : Represents cfg st d tr) (hexited : st.consumer = .exited) {k : ℕ} (hk : k < cfg.sinks)
    (hdone : (st.strands k).batches = []) :
    (batchesOf k tr).flatten = ((logClaims tr).filter (·.1 < d.processed)).map (·.2.event) := by
  have hphase := h.phase
  rw [hexited] at hphase
  have hpipe := h.pipeline k hk
  rw [hexited, hdone, List.append_nil] at hpipe
  rw [← delivered_eq h.ring hphase.2, ← hpipe]
  simp [Consumer.unposted]

/-- With at most one call of `shutdown()`, whoever returns from it has claimed
the only marker, and every sink has processed what was claimed below it. -/
theorem processed_of_shutdownReturn {pre post : List (Occurrence M)} {p : ℕ}
    (h : run (Logger.step cfg) (Logger.start captured) as = some st)
    (htr : observed cfg captured as = pre ++ .shutdownReturn p :: post)
    (hone : (shutdownCalls pre).length ≤ 1) :
    ∃ m, markers pre = [(p, m)] ∧ ∀ k < cfg.sinks,
      (batchesOf k pre).flatten = ((logClaims pre).filter (·.1 < m)).map (·.2.event) := by
  obtain ⟨as₁, u, a, hrun, -, hmem, rfl⟩ :=
    run_before h htr fun _ _ ho => (thread_of_shutdownReturn ho).1
  obtain ⟨⟨d, hd⟩, hb⟩ := invariant_of_run hrun
  have hacc := accounts_of_run hrun
  have hphase := hd.phase
  -- the consumer has met a marker, and there is only one
  have hunique (hr : u.running = false) : ∃ q, markers (observed cfg captured as₁) =
      [(q, d.processed)] := by
    rw [hr] at hphase
    obtain ⟨q, hq⟩ := marker_mem_claimsOf.mp (marker_claimed hd.ring hphase.stopped.2.1)
    have hlen := hacc.length_markers
    have hpos := List.length_pos_of_mem hq
    have hsingle : (markers (observed cfg captured as₁)).length = 1 := by omega
    obtain ⟨c, hc⟩ := List.length_eq_one_iff.mp hsingle
    rw [hc, List.mem_singleton] at hq
    exact ⟨q, by rw [hc, hq]⟩
  rcases (thread_of_shutdownReturn hmem).2.2 with ⟨hload, hr⟩ | hstore
  · -- a thread at its first load has not claimed the marker it would claim
    obtain ⟨q, hq⟩ := hunique hr
    have hlt := hacc.length_markers_lt (p := p) (by rw [hload]; rfl)
    rw [hq] at hlt
    simp only [List.length_singleton] at hlt
    omega
  · have hexited := hb.exited p (by rw [hstore]; rfl)
    have hwaits := hb.waits p
    have hknows := hd.threads p
    rw [hstore] at hwaits hknows
    rw [hexited] at hphase
    obtain ⟨q, hq⟩ := hunique hphase.1
    obtain ⟨m, hm⟩ := hknows
    have hpm := mem_markers.mpr hm
    rw [hq, List.mem_singleton] at hpm
    obtain ⟨rfl, rfl⟩ := Prod.mk.inj hpm
    exact ⟨d.processed, hq, fun k hk => processed_eq hd hexited hk (hwaits.2 k hk)⟩

theorem claims_pairwise (h : run (Logger.step cfg) (Logger.start captured) as = some st) :
    ((claimsOf (observed cfg captured as)).map Prod.fst).Pairwise (· < ·) := by
  obtain ⟨d, hd⟩ := (invariant_of_run h).represents
  rw [hd.ring.claims]
  exact pairwise_span 0 d.cursor

/-- What was claimed by a `log()` that returned before the first call of
`shutdown()` is below every marker. -/
theorem claimed_below_markers {l r : List (Occurrence M)} {p q : ℕ} {call : LogCall M} {s m : ℤ}
    (h : run (Logger.step cfg) (Logger.start captured) as = some st)
    (htr : observed cfg captured as = l ++ .shutdownCall p :: r) (hfirst : shutdownCalls l = [])
    (hret : .logReturn q call s ∈ l) (hm : (m, none) ∈ claimsOf (observed cfg captured as)) :
    (s, call) ∈ logClaims l ∧ s < m := by
  have hclaimed : (s, some call) ∈ claimsOf l := by
    obtain ⟨as₁, u, a, hrun, -, -, rfl⟩ := run_before h htr fun _ _ => emit_of_shutdownCall
    exact logClaim_mem_claimsOf (claimed_of_returned hrun hret)
  refine ⟨mem_logClaims.mpr hclaimed, ?_⟩
  have hpair := claims_pairwise h
  rw [htr, claimsOf_append] at hm hpair
  rw [List.map_append, List.pairwise_append] at hpair
  -- the marker is claimed after the call
  have hlater : (m, none) ∈ claimsOf (Occurrence.shutdownCall p :: r) := by
    refine (List.mem_append.mp hm).resolve_left fun hl => ?_
    obtain ⟨q', hq'⟩ := marker_mem_claimsOf.mp hl
    rw [markers_before_call h htr hfirst] at hq'
    cases hq'
  exact hpair.2.2 s (List.mem_map_of_mem hclaimed) m (List.mem_map_of_mem hlater)

/-- Any number of threads call `log()` any number of times, and `shutdown()`
is called once. In every interleaving, when `shutdown()` returns it has
claimed a sequence `m`, and every sink has processed exactly the events
claimed below `m`, in the order of their sequences and as their callers passed
them; among them is every call of `log()` that returned before `shutdown()`
was called. -/
theorem logger_delivery (cfg : Config) (captured : M) (as : List (Action M)) (st : Logger M)
    (h : run (Logger.step cfg) (Logger.start captured) as = some st)
    (hone : (shutdownCalls (observed cfg captured as)).length = 1)
    (pre post : List (Occurrence M)) (p : ℕ)
    (hret : observed cfg captured as = pre ++ .shutdownReturn p :: post) :
    ∃ m, .shutdownClaim p m ∈ pre ∧
      (∀ k < cfg.sinks, (batchesOf k pre).flatten =
        ((logClaims (observed cfg captured as)).filter (·.1 < m)).map (·.2.event)) ∧
      ((logClaims (observed cfg captured as)).map Prod.fst).Pairwise (· < ·) ∧
      ∀ l r, pre = l ++ .shutdownCall p :: r → ∀ q call s, .logReturn q call s ∈ l →
        (s, call) ∈ (logClaims (observed cfg captured as)).filter (·.1 < m) := by
  have hlen : (shutdownCalls pre).length ≤ 1 := by
    rw [hret, shutdownCalls_append, List.length_append] at hone
    omega
  obtain ⟨m, hmarkers, hsinks⟩ := processed_of_shutdownReturn h hret hlen
  have hclaim : (m, none) ∈ claimsOf pre := marker_mem_claimsOf.mpr ⟨p, by simp [hmarkers]⟩
  have hpair := claims_pairwise h
  have hbelow := logClaims_below (hret ▸ hpair) hclaim le_rfl
  rw [← hret] at hbelow
  refine ⟨m, mem_markers.mp (by simp [hmarkers]), fun k hk => ?_,
    hpair.sublist (logClaims_fst_sublist _), fun l r hpre q call s hlog => ?_⟩
  · rw [hbelow]
    exact hsinks k hk
  · have htr : observed cfg captured as =
        l ++ .shutdownCall p :: (r ++ .shutdownReturn p :: post) := by
      rw [hret, hpre]
      simp
    have hfirst : shutdownCalls l = [] := by
      rw [hpre, shutdownCalls_append, List.length_append] at hlen
      simp only [shutdownCalls, List.length_cons] at hlen
      exact List.length_eq_zero_iff.mp (by omega)
    have hmem : (m, none) ∈ claimsOf (observed cfg captured as) := by
      rw [hret, claimsOf_append]
      exact List.mem_append_left _ hclaim
    obtain ⟨hl, hlt⟩ := claimed_below_markers h htr hfirst hlog hmem
    refine List.mem_filter.mpr ⟨mem_logClaims.mpr ?_, by simpa using hlt⟩
    rw [htr, claimsOf_append]
    exact List.mem_append_left _ (mem_logClaims.mp hl)

end Run

/-- One sink, run by an owned pool, behind a ring of two slots. -/
def oneSink : Config := ⟨twoSlots, 1, true⟩

def greeting : LogCall Unit := ⟨.info, [115], [104, 105], ()⟩

/-- `next()`, the write and `publish()` of thread `p`, undisturbed. -/
def sendAll (p : ℕ) : List (Action Unit) :=
  [.send p .loadCursor, .send p .loadGating, .send p (.compareAndSet false), .send p .write,
    .send p .publish, .send p .signal]

/-- Thread `0` logs, thread `1` shuts down, the consumer drains the ring and
the strand runs the batch and the flush. -/
def logThenShutdown : List (Action Unit) :=
  [Action.callLog 0 greeting] ++ sendAll 0 ++ [Action.callShutdown 1, .proceed 1] ++
    sendAll 1 ++ List.replicate 15 (Action.consumer []) ++ List.replicate 2 (Action.proceed 1) ++
    [Action.strandStart 0, .strandFinish 0, .strandStart 0, .strandFinish 0] ++
    List.replicate 3 (Action.proceed 1)

theorem logger_delivery_logThenShutdown :
    (batchesOf 0 (observed oneSink () logThenShutdown)).flatten = [greeting.event] ∧
      ∃ m, .shutdownClaim 1 m ∈ (observed oneSink () logThenShutdown).dropLast ∧
        ∀ k < 1, (batchesOf k (observed oneSink () logThenShutdown).dropLast).flatten =
          ((logClaims (observed oneSink () logThenShutdown)).filter (·.1 < m)).map (·.2.event) := by
  refine ⟨rfl, ?_⟩
  obtain ⟨m, hclaim, hsinks, -, -⟩ := logger_delivery oneSink () logThenShutdown _ rfl rfl
    (observed oneSink () logThenShutdown).dropLast [] 1 rfl
  exact ⟨m, hclaim, hsinks⟩

end Demiplane.Scroll

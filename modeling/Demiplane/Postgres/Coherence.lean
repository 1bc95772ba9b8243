import Mathlib.Data.List.Nodup
import Demiplane.Postgres.Steps

/-!
Calls, waiters and handlers fit together. The handler of an initiated call is
in one place at a time: in a queued waiter, on its way to `post`, among the
handlers `shutdown()` has collected, or posted and not run. Release, timer and
`shutdown()` compete for a queued waiter, and its `claimed` flag decides; the
winner takes the waiter out of the queue in the same critical section, so no
queued waiter is claimed.
-/

namespace Demiplane.Postgres

open Transition

/-- The handlers `shutdown()` has yet to post. -/
def Closing.calls : Closing → List ℕ
  | .posting cs => cs
  | _ => []

/-- An initiated call has a handler that has not run. -/
def Call.owed : Call → ℕ
  | .initiated => 1
  | _ => 0

theorem Call.eq_initiated_of_owed {call : Call} (h : 0 < call.owed) : call = .initiated := by
  cases call with
  | initiated => rfl
  | _ => cases h

/-- The critical sections of the acquiring function are over. -/
def Call.begun : Call → Bool
  | .idle | .entered _ | .creating _ => false
  | _ => true

/-- A handler is called with a holder or with an error, never with both. -/
def Completion.Exclusive (p : Completion) : Prop := p.ec = .success ↔ p.holder.isSome = true

/-- The first entry a list search finds is the one `eraseP` removes. -/
theorem split_of_find? {α : Type*} {q : α → Bool} {l : List α} {x : α}
    (hx : l.find? q = some x) :
    q x = true ∧ ∃ l₁ l₂, l = l₁ ++ x :: l₂ ∧ l.eraseP q = l₁ ++ l₂ := by
  obtain ⟨hq, l₁, l₂, rfl, hnot⟩ := List.find?_eq_some_iff_append.mp hx
  refine ⟨hq, l₁, l₂, rfl, ?_⟩
  rw [List.eraseP_append_right _ (by simpa using hnot), List.eraseP_cons_of_pos hq]

namespace Pool

/-- How often the handler of an initiated call is found somewhere. -/
def carriers (st : Pool) (c : ℕ) : ℕ :=
  st.waiters.count (.async c) + st.posts.countP (·.2.call = c) +
    st.closing.calls.count c + st.handlers.countP (·.call = c)

/-- Calls, waiters and handlers fit together. -/
structure Coherent (st : Pool) : Prop where
  flagged : Flagged st
  carried : ∀ c, st.carriers c = (st.calls c).owed
  sync : ∀ c, .sync c ∈ st.waiters → ∃ timed, st.calls c = .waiting timed none
  nodup : st.waiters.Nodup
  unclaimed : ∀ c, .async c ∈ st.waiters → st.claimed c = false
  armed : ∀ c, st.armed c = true → st.claimed c = false → .async c ∈ st.waiters
  begun : ∀ c, st.claimed c = true → (st.calls c).begun = true
  uncleared : ∀ c, .async c ∈ st.waiters → st.closing = .idle ∨ st.closing = .exchanged

theorem coherent_start (cfg : PoolConfig.Valid) (attempts : ℕ → Bool) :
    Coherent (start cfg attempts) := by
  have hflagged := flagged_start cfg attempts
  obtain ⟨n, -, hidle⟩ := start_eq cfg attempts
  rw [hidle] at hflagged ⊢
  exact {
    flagged := hflagged
    carried := fun _ => rfl
    sync := fun c h => absurd h List.not_mem_nil
    nodup := List.nodup_nil
    unclaimed := fun c h => absurd h List.not_mem_nil
    armed := fun c h => absurd h Bool.false_ne_true
    begun := fun c h => absurd h Bool.false_ne_true
    uncleared := fun c h => absurd h List.not_mem_nil }

namespace Coherent

variable {st st' : Pool} {c : ℕ} {k : Kind}

theorem initiated_of_async (h : Coherent st) (hc : .async c ∈ st.waiters) :
    st.calls c = .initiated := by
  have hpos := List.count_pos_iff.mpr hc
  have hcarried := h.carried c
  rw [carriers] at hcarried
  exact Call.eq_initiated_of_owed (by omega)

theorem initiated_of_handler (h : Coherent st) {p : Completion} (hp : p ∈ st.handlers)
    (hc : p.call = c) : st.calls c = .initiated := by
  have hpos : 0 < st.handlers.countP (·.call = c) :=
    List.countP_pos_iff.mpr ⟨p, hp, by simpa using hc⟩
  have hcarried := h.carried c
  rw [carriers] at hcarried
  exact Call.eq_initiated_of_owed (by omega)

/-- A call that has not begun is not in the queue and not claimed. -/
theorem not_queued (h : Coherent st) (hc : (st.calls c).begun = false) :
    .sync c ∉ st.waiters ∧ .async c ∉ st.waiters ∧ st.claimed c = false := by
  refine ⟨fun hs => ?_, fun ha => ?_, ?_⟩
  · obtain ⟨timed, ht⟩ := h.sync c hs
    simp [ht, Call.begun] at hc
  · simp [h.initiated_of_async ha, Call.begun] at hc
  · cases hcl : st.claimed c with
    | false => rfl
    | true => simp [h.begun c hcl] at hc

/-- A call goes on to `v` with or without handing its handler over for
`post`, and nothing else changes. -/
theorem answer (h : Coherent st) {v : Call} {l : List (Poster × Completion)}
    (hbefore : (st.calls c).owed = 0) (hsync : .sync c ∉ st.waiters)
    (hv : st.claimed c = true → v.begun = true)
    (hmine : l.countP (·.2.call = c) = v.owed)
    (hothers : ∀ p ∈ l, p.2.call = c)
    (hst' : Flagged st' ∧ st'.calls = Function.update st.calls c v ∧
      st'.posts = st.posts ++ l ∧ st'.waiters = st.waiters ∧ st'.claimed = st.claimed ∧
      st'.armed = st.armed ∧ st'.handlers = st.handlers ∧ st'.closing = st.closing) :
    Coherent st' := by
  obtain ⟨hflag, hcalls, hposts, hwaiters, hclaimed, harmed, hhandlers, hclosing⟩ := hst'
  have hne (r : ℕ) (hr : .sync r ∈ st.waiters ∨ .async r ∈ st.waiters) : r ≠ c := by
    rintro rfl
    exact hr.elim hsync fun ha => by simp [h.initiated_of_async ha, Call.owed] at hbefore
  refine ⟨hflag, fun r => ?_, fun r hr => ?_, by rw [hwaiters]; exact h.nodup,
    by rw [hwaiters, hclaimed]; exact h.unclaimed,
    by rw [hwaiters, hclaimed, harmed]; exact h.armed, fun r hr => ?_,
    by rw [hwaiters, hclosing]; exact h.uncleared⟩
  · have hr := h.carried r
    rw [carriers] at hr ⊢
    rw [hwaiters, hposts, hclosing, hhandlers, hcalls, List.countP_append]
    by_cases hrc : r = c
    · subst hrc
      rw [Function.update_self, hmine]
      omega
    · have hzero : l.countP (·.2.call = r) = 0 := by
        refine List.countP_eq_zero.mpr fun p hp => ?_
        simp [hothers p hp, Ne.symm hrc]
      rw [Function.update_of_ne hrc, hzero]
      omega
  · rw [hwaiters] at hr
    rw [hcalls, Function.update_of_ne (hne r (.inl hr))]
    exact h.sync r hr
  · rw [hclaimed] at hr
    rw [hcalls]
    by_cases hrc : r = c
    · subst hrc
      rw [Function.update_self]
      exact hv hr
    · rw [Function.update_of_ne hrc]
      exact h.begun r hr

/-- A call queues. -/
theorem enqueue (h : Coherent st) (hc : (st.calls c).begun = false)
    (hopen : k.isAsync = true → st.closing = .idle) : Coherent (st.enqueue k c) := by
  obtain ⟨hsync, hasync, hclaimed⟩ := h.not_queued hc
  have hcalls (r : ℕ) (hr : r ≠ c) : (st.enqueue k c).calls r = st.calls r :=
    Function.update_of_ne hr _ _
  have hself : (st.enqueue k c).calls c = k.parked := Function.update_self _ _ _
  have hmem (w : WaiterEntry) : w ∈ (st.enqueue k c).waiters ↔ w ∈ st.waiters ∨ w ∈ k.waiter c :=
    List.mem_append
  refine ⟨h.flagged, fun r => ?_, fun r hr => ?_, ?_, fun r hr => ?_, fun r hr hcl => ?_,
    fun r hr => ?_, fun r hr => ?_⟩
  · have hr := h.carried r
    rw [carriers] at hr ⊢
    simp only [Pool.enqueue, List.count_append] at hr ⊢
    by_cases hrc : r = c
    · subst hrc
      have hnone : (st.calls r).owed = 0 := by
        cases hcall : st.calls r <;> simp [hcall, Call.begun] at hc <;> rfl
      have hmine : (k.waiter r).count (.async r) = k.parked.owed := by
        cases k <;> simp [Kind.waiter, Kind.parked, Call.owed]
      rw [Function.update_self, hmine]
      omega
    · have hzero : (k.waiter c).count (.async r) = 0 := by
        cases k <;> simp [Kind.waiter, Ne.symm hrc]
      rw [Function.update_of_ne hrc, hzero]
      omega
  · rcases (hmem _).mp hr with hr | hr
    · rw [hcalls r (fun hrc => hsync (hrc ▸ hr))]
      exact h.sync r hr
    · cases k with
      | acquire timed =>
          obtain rfl : r = c := by simpa [Kind.waiter] using hr
          exact ⟨timed, hself⟩
      | _ => simp [Kind.waiter] at hr
  · refine List.nodup_append.mpr ⟨h.nodup, by cases k <;> simp [Kind.waiter], ?_⟩
    rintro w hw _ hw' rfl
    cases k <;> simp only [Kind.waiter, List.mem_singleton, List.not_mem_nil] at hw' <;> subst hw'
    · exact hsync hw
    · exact hasync hw
  · rcases (hmem _).mp hr with hr | hr
    · exact h.unclaimed r hr
    · cases k with
      | asyncAcquire bounded =>
          obtain rfl : r = c := by simpa [Kind.waiter] using hr
          exact hclaimed
      | _ => simp [Kind.waiter] at hr
  · rw [hmem]
    by_cases hrc : r = c
    · subst hrc
      right
      have hk : k = .asyncAcquire true := by simpa [Pool.enqueue] using hr
      simp [hk, Kind.waiter]
    · left
      exact h.armed r (by simpa [Pool.enqueue, hrc] using hr) hcl
  · rw [hcalls r (fun hrc => by simp [← hrc, show st.claimed r = true from hr] at hclaimed)]
    exact h.begun r hr
  · rcases (hmem _).mp hr with hr | hr
    · exact h.uncleared r hr
    · cases k with
      | asyncAcquire bounded => exact .inl (hopen rfl)
      | _ => simp [Kind.waiter] at hr

/-- A waiter leaves the queue and its wait. -/
theorem leave (h : Coherent st) {timed : Bool} (hc : st.calls c = .waiting timed none) :
    Coherent (st.leave c) := by
  have hmem (w : WaiterEntry) : w ∈ (st.leave c).waiters ↔ w ∈ st.waiters ∧ w ≠ .sync c := by
    simp [Pool.leave]
  have hcalls (r : ℕ) (hr : r ≠ c) : (st.leave c).calls r = st.calls r :=
    Function.update_of_ne hr _ _
  refine ⟨h.flagged, fun r => ?_, fun r hr => ?_, h.nodup.filter _,
    fun r hr => h.unclaimed r ((hmem _).mp hr).1, fun r hr hcl => ?_, fun r hr => ?_,
    fun r hr => h.uncleared r ((hmem _).mp hr).1⟩
  · have hr := h.carried r
    rw [carriers] at hr ⊢
    have hcount : (st.leave c).waiters.count (.async r) = st.waiters.count (.async r) :=
      List.count_filter (by simp)
    rw [hcount]
    by_cases hrc : r = c
    · subst hrc
      simpa [Pool.leave, setCall, hc, Call.owed] using hr
    · rw [hcalls r hrc]
      exact hr
  · obtain ⟨hr, hne⟩ := (hmem _).mp hr
    rw [hcalls r (fun hrc => hne (by rw [hrc]))]
    exact h.sync r hr
  · exact (hmem _).mpr ⟨h.armed r hr hcl, by simp⟩
  · by_cases hrc : r = c
    · subst hrc
      simp [Pool.leave, setCall, Call.begun]
    · rw [hcalls r hrc]
      exact h.begun r hr

/-- How often a handler is found in the queue without the waiter of `c`. -/
theorem count_filter_async (h : Coherent st) (hc : .async c ∈ st.waiters) (r : ℕ) :
    (st.waiters.filter (· ≠ WaiterEntry.async c)).count (.async r) + (if c = r then 1 else 0) =
      st.waiters.count (.async r) := by
  by_cases hrc : c = r
  · subst hrc
    have hnone : (st.waiters.filter (· ≠ WaiterEntry.async c)).count (.async c) = 0 :=
      List.count_eq_zero.mpr fun hin => by simp at hin
    rw [hnone, if_pos rfl, List.count_eq_one_of_mem h.nodup hc]
  · rw [if_neg hrc, Nat.add_zero]
    exact List.count_filter (by simpa using Ne.symm hrc)

/-- The timer claims a queued waiter. -/
theorem timer (h : Coherent st) (ha : st.armed c = true) (hc : st.claimed c = false) :
    Coherent { st with
      armed := Function.update st.armed c false
      claimed := Function.update st.claimed c true
      waiters := st.waiters.filter (· ≠ WaiterEntry.async c)
      posts := st.posts ++ [(.timer, ⟨c, .timedOut, none⟩)] } := by
  have hqueued := h.armed c ha hc
  have hmem (w : WaiterEntry) :
      w ∈ st.waiters.filter (· ≠ WaiterEntry.async c) ↔ w ∈ st.waiters ∧ w ≠ .async c := by simp
  refine ⟨h.flagged, fun r => ?_, fun r hr => h.sync r ((hmem _).mp hr).1, h.nodup.filter _,
    fun r hr => ?_, fun r hr hcl => ?_, fun r hr => ?_,
    fun r hr => h.uncleared r ((hmem _).mp hr).1⟩
  · have hr := h.carried r
    have hcount := h.count_filter_async hqueued r
    rw [carriers] at hr ⊢
    simp only [List.countP_append, List.countP_singleton, decide_eq_true_eq]
    omega
  · obtain ⟨hr, hne⟩ := (hmem _).mp hr
    have hrc : r ≠ c := fun hrc => hne (by rw [hrc])
    simpa [hrc] using h.unclaimed r hr
  · dsimp only at hr hcl
    have hrc : r ≠ c := by
      rintro rfl
      simp at hr
    rw [Function.update_of_ne hrc] at hr hcl
    exact (hmem _).mpr ⟨h.armed r hr hcl, by simpa using hrc⟩
  · dsimp only at hr ⊢
    by_cases hrc : r = c
    · rw [hrc, h.initiated_of_async hqueued]
      rfl
    · exact h.begun r (by simpa [hrc] using hr)

/-- A handler goes from a call to its executor. -/
theorem post (h : Coherent st) {p : Poster × Completion}
    (hp : st.posts.find? (·.2.call = c) = some p) :
    Coherent { st with
      posts := st.posts.eraseP (·.2.call = c)
      handlers := st.handlers ++ [p.2] } := by
  obtain ⟨-, l₁, l₂, hposts, herase⟩ := split_of_find? hp
  refine ⟨h.flagged, fun r => ?_, h.sync, h.nodup, h.unclaimed, h.armed, h.begun, h.uncleared⟩
  have hr := h.carried r
  rw [carriers, hposts] at hr
  rw [carriers]
  simp only [herase, List.countP_append, List.countP_cons, List.countP_nil] at hr ⊢
  omega

/-- The executor runs a handler. -/
theorem runHandler (h : Coherent st) {p : Completion} {v : Call}
    (hp : handlerOf c st.handlers = some p) (hv : v.begun = true) (howed : v.owed = 0) :
    Coherent ({ st with handlers := st.handlers.eraseP (·.call = c) }.setCall c v) := by
  obtain ⟨hcall, l₁, l₂, hhandlers, herase⟩ := split_of_find? hp
  have hcall : p.call = c := by simpa using hcall
  have hmine : p ∈ st.handlers := by simp [hhandlers]
  have hinit := h.initiated_of_handler hmine hcall
  refine ⟨h.flagged, fun r => ?_, fun r hr => ?_, h.nodup, h.unclaimed, h.armed, fun r hr => ?_,
    h.uncleared⟩
  · have hr := h.carried r
    rw [carriers, hhandlers] at hr
    rw [carriers]
    simp only [setCall, herase, List.countP_append, List.countP_cons] at hr ⊢
    by_cases hrc : r = c
    · subst hrc
      rw [hinit, decide_eq_true hcall, if_pos rfl] at hr
      rw [Function.update_self, howed]
      simp only [Call.owed] at hr
      omega
    · rw [Function.update_of_ne hrc]
      rw [if_neg (by simpa [hcall] using Ne.symm hrc)] at hr
      exact hr
  · obtain ⟨timed, ht⟩ := h.sync r hr
    have hrc : r ≠ c := by
      rintro rfl
      rw [hinit] at ht
      cases ht
    exact ⟨timed, by rw [calls_setCall, Function.update_of_ne hrc]; exact ht⟩
  · rw [calls_setCall]
    by_cases hrc : r = c
    · subst hrc
      rwa [Function.update_self]
    · rw [Function.update_of_ne hrc]
      exact h.begun r hr

/-- No queued waiter is claimed, so `return_holder` serves the head. -/
theorem waiters_of_pop (h : Coherent st) :
    (popWaiter st.claimed st.waiters = none → st.waiters = []) ∧
      ∀ w rest, popWaiter st.claimed st.waiters = some (w, rest) → st.waiters = w :: rest := by
  have hun := h.unclaimed
  cases hw : st.waiters with
  | nil => simp [popWaiter]
  | cons w ws =>
      cases w with
      | sync c => simp [popWaiter]
      | async c => simp [popWaiter, hun c (by simp [hw])]

/-- The borrower that serves a synchronous waiter is another call. -/
theorem sync_of_pop (h : Coherent st) {w : ℕ} {rest : List WaiterEntry} {x : Holder}
    (hc : st.calls c = .holding x)
    (hpop : popWaiter st.claimed st.waiters = some (.sync w, rest)) :
    w ≠ c ∧ ∃ timed, st.calls w = .waiting timed none := by
  obtain ⟨timed, ht⟩ := h.sync w (by simp [h.waiters_of_pop.2 _ _ hpop])
  refine ⟨?_, timed, ht⟩
  rintro rfl
  rw [hc] at ht
  cases ht

/-- A synchronous waiter is handed a holder. -/
theorem serveSync (h : Coherent st) {w : ℕ} {rest : List WaiterEntry} {x : Holder}
    (hw : st.waiters = .sync w :: rest) :
    Coherent { st with
      waiters := rest
      calls := Function.update st.calls w
        (match st.calls w with
          | .waiting timed _ => .waiting timed (some x)
          | call => call) } := by
  obtain ⟨timed, ht⟩ := h.sync w (by simp [hw])
  rw [ht]
  have hnodup := h.nodup
  rw [hw, List.nodup_cons] at hnodup
  have hrest {e : WaiterEntry} (he : e ∈ rest) : e ∈ st.waiters := by simp [hw, he]
  refine ⟨h.flagged, fun r => ?_, fun r hr => ?_, hnodup.2, fun r hr => h.unclaimed r (hrest hr),
    fun r hr hcl => ?_, fun r hr => ?_, fun r hr => h.uncleared r (hrest hr)⟩
  · have hr := h.carried r
    rw [carriers, hw, List.count_cons_of_ne (by simp)] at hr
    rw [carriers]
    dsimp only
    by_cases hrw : r = w
    · subst hrw
      rw [ht] at hr
      rw [Function.update_self]
      exact hr
    · rw [Function.update_of_ne hrw]
      exact hr
  · have hrw : r ≠ w := by
      rintro rfl
      exact hnodup.1 hr
    obtain ⟨timed', ht'⟩ := h.sync r (hrest hr)
    exact ⟨timed', (Function.update_of_ne hrw _ _).trans ht'⟩
  · have := h.armed r hr hcl
    rw [hw] at this
    simpa using this
  · dsimp only
    by_cases hrw : r = w
    · subst hrw
      rw [Function.update_self]
      rfl
    · rw [Function.update_of_ne hrw]
      exact h.begun r hr

/-- An asynchronous waiter is claimed for a holder. -/
theorem serveAsync (h : Coherent st) {w : ℕ} {rest : List WaiterEntry} {x : Holder}
    (hw : st.waiters = .async w :: rest) :
    Coherent { st with
      waiters := rest
      claimed := Function.update st.claimed w true
      posts := st.posts ++ [(.release, ⟨w, .success, some x⟩)] } := by
  have hnodup := h.nodup
  rw [hw, List.nodup_cons] at hnodup
  have hrest {e : WaiterEntry} (he : e ∈ rest) : e ∈ st.waiters := by simp [hw, he]
  refine ⟨h.flagged, fun r => ?_, fun r hr => h.sync r (hrest hr), hnodup.2, fun r hr => ?_,
    fun r hr hcl => ?_, fun r hr => ?_, fun r hr => h.uncleared r (hrest hr)⟩
  · have hr := h.carried r
    rw [carriers, hw, List.count_cons] at hr
    rw [carriers]
    simp only [List.countP_append, List.countP_singleton]
    by_cases hrw : r = w
    · subst hrw
      simp only [beq_self_eq_true, if_true] at hr
      simp only [decide_true, if_true]
      omega
    · rw [if_neg (by simpa using Ne.symm hrw)] at hr
      rw [if_neg (by simpa using Ne.symm hrw)]
      omega
  · have hrw : r ≠ w := by
      rintro rfl
      exact hnodup.1 hr
    simpa [hrw] using h.unclaimed r (hrest hr)
  · dsimp only at hr hcl
    have hrw : r ≠ w := by
      rintro rfl
      simp at hcl
    have hin := h.armed r hr (by simpa [hrw] using hcl)
    rw [hw] at hin
    simpa [hrw] using hin
  · dsimp only at hr ⊢
    by_cases hrw : r = w
    · subst hrw
      rw [h.initiated_of_async (c := r) (by simp [hw])]
      rfl
    · exact h.begun r (by simpa [hrw] using hr)

end Coherent

/-! ### The waiters `shutdown()` finds -/

theorem collect_claimed (ws : List WaiterEntry) (claimed : ℕ → Bool) (c : ℕ) :
    (collect ws claimed).2 c = true ↔ claimed c = true ∨ .async c ∈ ws := by
  induction ws generalizing claimed with
  | nil => simp [collect]
  | cons w ws ih =>
      cases w with
      | sync w => simpa [collect] using ih claimed
      | async w =>
          simp only [collect]
          by_cases hw : claimed w = true
          · rw [if_pos hw, ih]
            by_cases hcw : c = w
            · subst hcw
              simp [hw]
            · simp [hcw]
          · rw [if_neg hw]
            simp only [ih, List.mem_cons, WaiterEntry.async.injEq]
            by_cases hcw : c = w
            · subst hcw
              simp
            · simp [hcw]

theorem collect_calls {ws : List WaiterEntry} {claimed : ℕ → Bool} (hnodup : ws.Nodup)
    (hun : ∀ c, .async c ∈ ws → claimed c = false) (c : ℕ) :
    (collect ws claimed).1.count c = ws.count (.async c) := by
  induction ws generalizing claimed with
  | nil => simp [collect]
  | cons w ws ih =>
      rw [List.nodup_cons] at hnodup
      cases w with
      | sync w =>
          rw [List.count_cons_of_ne (by simp)]
          exact ih hnodup.2 fun r hr => hun r (List.mem_cons_of_mem _ hr)
      | async w =>
          have hrest : ∀ r, .async r ∈ ws → Function.update claimed w true r = false := by
            intro r hr
            have hrw : r ≠ w := by
              rintro rfl
              exact hnodup.1 hr
            rw [Function.update_of_ne hrw]
            exact hun r (List.mem_cons_of_mem _ hr)
          simp only [collect, hun w (by simp), Bool.false_eq_true, if_false]
          rw [List.count_cons, List.count_cons, ih hnodup.2 hrest]
          simp

theorem Coherent.clear {st : Pool} (h : Coherent st) (hc : st.closing = .exchanged)
    (hflag : Flagged st.clear) : Coherent st.clear where
  flagged := hflag
  carried c := by
    have hcarried := h.carried c
    rw [carriers, hc] at hcarried
    simp only [carriers, Pool.clear, Closing.calls, collect_calls h.nodup h.unclaimed,
      List.count_nil] at hcarried ⊢
    omega
  sync c hin := absurd hin List.not_mem_nil
  nodup := List.nodup_nil
  unclaimed c hin := absurd hin List.not_mem_nil
  armed c ha hcl := by
    have hnot := (collect_claimed st.waiters st.claimed c).not.mp
      (by rw [show (collect st.waiters st.claimed).2 c = false from hcl]; simp)
    rw [not_or] at hnot
    exact absurd (h.armed c ha (by simpa using hnot.1)) hnot.2
  begun c hcl := by
    rcases (collect_claimed st.waiters st.claimed c).mp hcl with hcl | hin
    · exact h.begun c hcl
    · rw [show st.clear.calls c = st.calls c from rfl, h.initiated_of_async hin]
      rfl
  uncleared c hin := absurd hin List.not_mem_nil

/-! ### One step -/

theorem Coherent.abort {st : Pool} {c : ℕ} {k : Kind} (h : Coherent st)
    (hc : (st.calls c).begun = false) : Coherent (st.abort k c) := by
  obtain ⟨hsync, -, hclaimed⟩ := h.not_queued hc
  refine h.answer (v := if k.isAsync then .initiated else .returned) ?_ hsync
    (fun hcl => by simp [hcl] at hclaimed) ?_ ?_
    ⟨h.flagged, rfl, rfl, rfl, rfl, rfl, rfl, rfl⟩
  · cases hcall : st.calls c <;> simp [hcall, Call.begun] at hc <;> rfl
  · cases hk : k.isAsync <;> simp [Call.owed]
  · cases hk : k.isAsync <;> simp

theorem Coherent.deliver {st : Pool} {c : ℕ} {k : Kind} (h : Coherent st)
    (hc : (st.calls c).begun = false) (x : Holder) : Coherent (st.deliver k c x) := by
  obtain ⟨hsync, -, hclaimed⟩ := h.not_queued hc
  refine h.answer (v := if k.isAsync then .initiated else .holding x) ?_ hsync
    (fun hcl => by simp [hcl] at hclaimed) ?_ ?_
    ⟨h.flagged, rfl, rfl, rfl, rfl, rfl, rfl, rfl⟩
  · cases hcall : st.calls c <;> simp [hcall, Call.begun] at hc <;> rfl
  · cases hk : k.isAsync <;> simp [Call.owed]
  · cases hk : k.isAsync <;> simp

/-- A call goes on, and it is neither queued before nor initiated before or
after. -/
theorem Coherent.setCall {st : Pool} {c : ℕ} {v : Call} (h : Coherent st)
    (hbefore : (st.calls c).owed = 0) (hafter : v.owed = 0)
    (hsync : ∀ timed, st.calls c ≠ .waiting timed none)
    (hv : st.claimed c = true → v.begun = true) : Coherent (st.setCall c v) := by
  refine h.answer (l := []) hbefore (fun hin => ?_) hv (by simpa using hafter.symm) (by simp)
    ⟨h.flagged, rfl, by simp [Pool.setCall], rfl, rfl, rfl, rfl, rfl⟩
  obtain ⟨timed, ht⟩ := h.sync c hin
  exact hsync timed ht

theorem coherent_step {cfg : PoolConfig.Valid} {st st' : Pool} {a : Action} (h : Coherent st)
    (hstep : Step cfg st a st') : Coherent st' := by
  have hflag := flagged_step h.flagged hstep
  -- a call that has not begun has not been claimed
  have hfresh {c : ℕ} (hc : (st.calls c).begun = false) : ¬ st.claimed c = true := by
    rw [(h.not_queued hc).2.2]
    simp
  -- a borrower lets go of its holder
  have hreset {c : ℕ} {x : Holder} (hc : st.calls c = .holding x) :
      Coherent (st.setCall c .returned) :=
    h.setCall (by rw [hc]; rfl) rfl (by simp [hc]) fun _ => rfl
  cases hstep with
  | callAborted hc hs => exact h.abort (by rw [hc]; rfl)
  | callEntered hc hs =>
      exact h.setCall (by rw [hc]; rfl) rfl (by simp [hc])
        fun hcl => absurd hcl (hfresh (by rw [hc]; rfl))
  | lockAborted hc hs => exact h.abort (by rw [hc]; rfl)
  | @lockTook c k x rest hc hs hf =>
      have hfree : Coherent { st with free := rest } :=
        ⟨h.flagged, h.carried, h.sync, h.nodup, h.unclaimed, h.armed, h.begun, h.uncleared⟩
      exact hfree.deliver (by rw [show st.calls c = _ from hc]; rfl) x
  | lockCreating hc hs hf hcap =>
      exact h.setCall (by rw [hc]; rfl) rfl (by simp [hc])
        fun hcl => absurd hcl (hfresh (by rw [hc]; rfl))
  | lockQueued hc hs hf hcap =>
      exact h.enqueue (by rw [hc]; rfl) fun _ => h.flagged.mp hs
  | relockAborted hc hk hs => exact h.abort (by rw [hc]; rfl)
  | @relockCreated c k hc hs =>
      have hholders : Coherent { st with
          created := st.created + 1
          holders := st.holders ++ [st.fresh]
          fresh := st.fresh + 1 } :=
        ⟨h.flagged, h.carried, h.sync, h.nodup, h.unclaimed, h.armed, h.begun, h.uncleared⟩
      exact hholders.deliver (by rw [show st.calls c = _ from hc]; rfl) st.fresh
  | relockQueued hc hs =>
      refine h.enqueue (by rw [hc]; rfl) fun hk => h.flagged.mp ?_
      simpa [hk] using hs
  | wakeReady hc => exact h.setCall (by rw [hc]; rfl) rfl (by simp [hc]) fun _ => rfl
  | wakeLeft hc hs => exact h.leave hc
  | timerLost ha hc =>
      refine ⟨h.flagged, h.carried, h.sync, h.nodup, h.unclaimed, fun r hr hcl => ?_, h.begun,
        h.uncleared⟩
      dsimp only at hr hcl
      rename_i c
      have hrc : r ≠ c := by
        rintro rfl
        simp at hr
      exact h.armed r (by simpa [hrc] using hr) hcl
  | timerWon ha hc => exact h.timer ha hc
  | posted hp => exact h.post hp
  | @ran c p hp => exact h.runHandler hp (by cases p.holder <;> rfl) (by cases p.holder <;> rfl)
  | resetLate hc hs => exact hreset hc
  | resetParked hc hs hpop =>
      have h' := hreset hc
      have hnil := h.waiters_of_pop.1 hpop
      exact ⟨h'.flagged, fun r => by rw [← h'.carried r, carriers, carriers, ← hnil]; rfl,
        fun r hr => absurd hr List.not_mem_nil, List.nodup_nil,
        fun r hr => absurd hr List.not_mem_nil, fun r hr hcl => hnil ▸ h'.armed r hr hcl, h'.begun,
        fun r hr => absurd hr List.not_mem_nil⟩
  | resetSync hc hs hpop => exact (hreset hc).serveSync (h.waiters_of_pop.2 _ _ hpop)
  | resetAsync hc hs hpop => exact (hreset hc).serveAsync (h.waiters_of_pop.2 _ _ hpop)
  | resetDropped hc hs hh =>
      have h' := hreset hc
      exact ⟨h'.flagged, h'.carried, h'.sync, h'.nodup, h'.unclaimed, h'.armed, h'.begun,
        h'.uncleared⟩
  | resetUnknown hc hs hh => exact hreset hc
  | exchanged hc =>
      refine ⟨hflag, fun r => ?_, h.sync, h.nodup, h.unclaimed, h.armed, h.begun,
        fun r _ => .inr rfl⟩
      have hr := h.carried r
      rw [carriers, hc] at hr
      exact hr
  | exchangedAgain hc => exact h
  | cleared hc => exact h.clear hc hflag
  | @postedAborted c cs hc =>
      refine ⟨hflag, fun r => ?_, h.sync, h.nodup, h.unclaimed, h.armed, h.begun, fun r hr => ?_⟩
      · have hr := h.carried r
        rw [carriers, hc] at hr
        rw [carriers]
        simp only [Closing.calls, List.count_cons, List.countP_append, List.countP_singleton,
          beq_iff_eq, decide_eq_true_eq] at hr ⊢
        omega
      · rcases h.uncleared r hr with hcl | hcl <;> simp [hc] at hcl
  | shutdownReturned hc =>
      refine ⟨hflag, fun r => ?_, h.sync, h.nodup, h.unclaimed, h.armed, h.begun, fun r hr => ?_⟩
      · have hr := h.carried r
        rw [carriers, hc] at hr
        exact hr
      · rcases h.uncleared r hr with hcl | hcl <;> simp [hc] at hcl

/-- Every handler is called with a holder or with an error. -/
structure Answered (st : Pool) : Prop where
  posts : ∀ p ∈ st.posts, p.2.Exclusive
  handlers : ∀ p ∈ st.handlers, p.Exclusive

theorem answered_start (cfg : PoolConfig.Valid) (attempts : ℕ → Bool) :
    Answered (start cfg attempts) := by
  obtain ⟨n, -, hidle⟩ := start_eq cfg attempts
  rw [hidle]
  exact ⟨fun p hp => absurd hp List.not_mem_nil, fun p hp => absurd hp List.not_mem_nil⟩

theorem answered_step {cfg : PoolConfig.Valid} {st st' : Pool} {a : Action} (h : Answered st)
    (hstep : Step cfg st a st') : Answered st' := by
  have happend {p : Completion} {l : List Completion} (hp : p ∈ st.handlers ++ l)
      (hl : ∀ q ∈ l, q.Exclusive) : p.Exclusive :=
    (List.mem_append.mp hp).elim (h.handlers p) (hl p)
  -- what a critical section hands over for `post` has a holder or an error
  have hanswer {l : List (Poster × Completion)} (hl : ∀ q ∈ l, q.2.Exclusive)
      (hposts : st'.posts = st.posts ++ l) (hhandlers : st'.handlers = st.handlers) :
      Answered st' := by
    refine ⟨fun p hp => ?_, by rw [hhandlers]; exact h.handlers⟩
    rw [hposts, List.mem_append] at hp
    exact hp.elim (h.posts p) (hl p)
  cases hstep
  case callAborted c k hc hs =>
    exact hanswer (by cases k.isAsync <;> simp [Completion.Exclusive]) rfl rfl
  case lockAborted c k hc hs =>
    exact hanswer (by cases k.isAsync <;> simp [Completion.Exclusive]) rfl rfl
  case lockTook c k x rest hc hs hf =>
    exact hanswer (by cases k.isAsync <;> simp [Completion.Exclusive]) rfl rfl
  case relockAborted c k connected hc hk hs =>
    exact hanswer (by cases k.isAsync <;> simp [Completion.Exclusive]) rfl rfl
  case relockCreated c k hc hs =>
    exact hanswer (by cases k.isAsync <;> simp [Completion.Exclusive]) rfl rfl
  case timerWon c ha hc => exact hanswer (by simp [Completion.Exclusive]) rfl rfl
  case resetAsync c w x rest hc hs hpop => exact hanswer (by simp [Completion.Exclusive]) rfl rfl
  case posted c p hp =>
    refine ⟨fun q hq => h.posts q (List.mem_of_mem_eraseP hq), fun q hq => happend hq ?_⟩
    simpa using h.posts p (List.mem_of_find?_eq_some hp)
  case ran c p hp => exact ⟨h.posts, fun q hq => h.handlers q (List.mem_of_mem_eraseP hq)⟩
  case postedAborted c cs hc =>
    exact ⟨h.posts, fun q hq => happend hq (by simp [Completion.Exclusive])⟩
  all_goals exact ⟨h.posts, h.handlers⟩

end Pool

end Demiplane.Postgres

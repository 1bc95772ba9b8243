import Demiplane.Custody.Ledger
import Demiplane.Postgres.Capacity
import Demiplane.Postgres.Coherence

/-!
Who has a holder. Before shutdown every holder of `holders_` is in the free
list, assigned to a waiter that has not woken up yet, carried by a completion
handler or borrowed, and in only one of these ways. A handler carries its
holder from the critical section that takes it to the run of the handler, so
also between the end of that section and the `post` behind it.
-/

namespace Demiplane.Postgres

open Transition
open Custody
open PoolConfig (single)

/-- Where a holder can be. -/
inductive Place where
  | free
  | assigned (c : ℕ)
  | posting (c : ℕ)
  | posted (c : ℕ)
  | borrowed (c : ℕ)
  deriving DecidableEq

/-- What a call has in its hands: `ready` and not returned, or returned with a
holder. -/
def Call.place (c : ℕ) : Call → Option (Holder × Place)
  | .waiting _ (some h) => some (h, .assigned c)
  | .holding h => some (h, .borrowed c)
  | _ => none

theorem Call.place_eq_some {c : ℕ} {call : Call} {h : Holder} {p : Place}
    (hp : call.place c = some (h, p)) : p = .assigned c ∨ p = .borrowed c := by
  cases call with
  | waiting timed assigned =>
      cases assigned with
      | none => cases hp
      | some x => exact .inl (congrArg Prod.snd (Option.some.inj hp)).symm
  | holding x => exact .inr (congrArg Prod.snd (Option.some.inj hp)).symm
  | _ => cases hp

/-- A list of handlers carries `h` for call `c`. -/
def carries (hs : List Completion) (c : ℕ) (h : Holder) : Prop := ⟨c, .success, some h⟩ ∈ hs

variable {e : Completion}

theorem carries_of_mem {hs : List Completion} {h : Holder} (he : e ∈ hs)
    (hexclusive : e.Exclusive) (hh : e.holder = some h) : carries hs e.call h := by
  have hec : e.ec = .success := hexclusive.mpr (by simp [hh])
  rwa [carries, ← hec, ← hh]

theorem carries_append {hs : List Completion} (he : e.Exclusive) (c : ℕ)
    (h : Holder) : carries (hs ++ [e]) c h ↔ carries hs c h ∨ some h = e.holder ∧ c = e.call := by
  obtain ⟨call, ec, holder⟩ := e
  simp only [Completion.Exclusive] at he
  simp only [carries, List.mem_append, List.mem_singleton, Completion.mk.injEq]
  grind

theorem carries_remove {l₁ l₂ : List Completion}
    (hnodup : ((l₁ ++ e :: l₂).map (·.call)).Nodup) (c : ℕ) (h : Holder) :
    carries (l₁ ++ l₂) c h ↔
      carries (l₁ ++ e :: l₂) c h ∧ ¬ (some h = e.holder ∧ c = e.call) := by
  rw [List.map_append, List.map_cons, List.nodup_middle, List.nodup_cons, ← List.map_append]
    at hnodup
  have hperm : ⟨c, .success, some h⟩ ∈ l₁ ++ e :: l₂ ↔
      ⟨c, .success, some h⟩ = e ∨ ⟨c, .success, some h⟩ ∈ l₁ ++ l₂ := by
    simp only [List.mem_append, List.mem_cons]
    tauto
  constructor
  · intro hin
    refine ⟨hperm.mpr (.inr hin), fun he => hnodup.1 ?_⟩
    rw [← he.2]
    exact List.mem_map_of_mem hin
  · rintro ⟨hin, hne⟩
    rcases hperm.mp hin with rfl | hin
    · exact absurd ⟨rfl, rfl⟩ hne
    · exact hin

namespace Pool

/-- Where the holder is found. -/
def At (st : Pool) (h : Holder) : Place → Prop
  | .free => h ∈ st.free
  | .assigned c => (st.calls c).place c = some (h, .assigned c)
  | .posting c => carries (st.posts.map Prod.snd) c h
  | .posted c => carries st.handlers c h
  | .borrowed c => (st.calls c).place c = some (h, .borrowed c)

/-! ### One thing put somewhere or taken away -/

section Delta

variable (st st' : Pool) {c : ℕ} {v : Call} {h : Holder} {w : Poster}

variable {st} in
theorem at_of_place {q : Place} (hq : (st.calls c).place c = some (h, q)) : st.At h q := by
  rcases Call.place_eq_some hq with rfl | rfl <;> exact hq

/-- A call whose hands were empty goes on to `v`. -/
theorem at_putCall (hempty : (st.calls c).place c = none)
    (hcalls : st'.calls = Function.update st.calls c v) (hfree : st'.free = st.free)
    (hposts : st'.posts = st.posts) (hhandlers : st'.handlers = st.handlers) (x : Holder)
    (p : Place) : st'.At x p ↔ st.At x p ∨ some (x, p) = v.place c := by
  have hv (hp : p ≠ .assigned c ∧ p ≠ .borrowed c) : some (x, p) ≠ v.place c := fun hvp =>
    (Call.place_eq_some hvp.symm).elim hp.1 hp.2
  cases p with
  | free => simp [At, hfree, hv]
  | posting r => simp [At, hposts, hv]
  | posted r => simp [At, hhandlers, hv]
  | assigned r | borrowed r =>
      by_cases hrc : r = c
      · subst hrc
        simp [At, hcalls, hempty, eq_comm]
      · simp [At, hcalls, hrc, hv]

/-- A call with a holder goes on without it. -/
theorem at_takeCall {q : Place} (hq : (st.calls c).place c = some (h, q)) (hv : v.place c = none)
    (hcalls : st'.calls = Function.update st.calls c v) (hfree : st'.free = st.free)
    (hposts : st'.posts = st.posts) (hhandlers : st'.handlers = st.handlers) (x : Holder)
    (p : Place) : st'.At x p ↔ st.At x p ∧ ¬ (x = h ∧ p = q) := by
  have hne (hp : p ≠ .assigned c ∧ p ≠ .borrowed c) : p ≠ q := by
    rintro rfl
    exact (Call.place_eq_some hq).elim hp.1 hp.2
  cases p with
  | free => simp [At, hfree, hne]
  | posting r => simp [At, hposts, hne]
  | posted r => simp [At, hhandlers, hne]
  | assigned r | borrowed r =>
      by_cases hrc : r = c
      · subst hrc
        simp only [At, hcalls, Function.update_self, hv, hq, Option.some.injEq, Prod.mk.injEq]
        grind
      · simp [At, hcalls, hrc, hne]

/-- A holder is parked. -/
theorem at_putFree (hfree : st'.free = st.free ++ [h]) (hcalls : st'.calls = st.calls)
    (hposts : st'.posts = st.posts) (hhandlers : st'.handlers = st.handlers) (x : Holder)
    (p : Place) : st'.At x p ↔ st.At x p ∨ x = h ∧ p = .free := by
  cases p <;> simp [At, hfree, hcalls, hposts, hhandlers]

/-- The front holder is taken out of the free list. -/
theorem at_takeFree (hnodup : st.free.Nodup) (hfree : st.free = h :: st'.free)
    (hcalls : st'.calls = st.calls) (hposts : st'.posts = st.posts)
    (hhandlers : st'.handlers = st.handlers) (x : Holder) (p : Place) :
    st'.At x p ↔ st.At x p ∧ ¬ (x = h ∧ p = .free) := by
  rw [hfree, List.nodup_cons] at hnodup
  cases p with
  | free =>
      have hne (hx : x ∈ st'.free) : x ≠ h := fun hxh => hnodup.1 (hxh ▸ hx)
      simp only [At, hfree, List.mem_cons, and_true]
      grind
  | _ => simp [At, hcalls, hposts, hhandlers]

/-- A handler is handed over for `post`, with the holder it carries if any. -/
theorem at_putPost (he : e.Exclusive) (hposts : st'.posts = st.posts ++ [(w, e)])
    (hfree : st'.free = st.free) (hcalls : st'.calls = st.calls)
    (hhandlers : st'.handlers = st.handlers) (x : Holder) (p : Place) :
    st'.At x p ↔ st.At x p ∨ some x = e.holder ∧ p = .posting e.call := by
  cases p with
  | posting r => simp [At, hposts, carries_append he]
  | _ => simp [At, hfree, hcalls, hhandlers]

theorem at_takePost {l₁ l₂ : List (Poster × Completion)}
    (hnodup : (st.posts.map (·.2.call)).Nodup) (hposts : st.posts = l₁ ++ (w, e) :: l₂)
    (hposts' : st'.posts = l₁ ++ l₂) (hfree : st'.free = st.free) (hcalls : st'.calls = st.calls)
    (hhandlers : st'.handlers = st.handlers) (x : Holder) (p : Place) :
    st'.At x p ↔ st.At x p ∧ ¬ (some x = e.holder ∧ p = .posting e.call) := by
  cases p with
  | posting r =>
      have hcalls : ((l₁.map Prod.snd ++ e :: l₂.map Prod.snd).map (·.call)).Nodup := by
        simpa [hposts, Function.comp_def] using hnodup
      simpa [At, hposts, hposts'] using carries_remove hcalls r x
  | _ => simp [At, hfree, hcalls, hhandlers]

/-- A handler is posted. -/
theorem at_putHandler (he : e.Exclusive)
    (hhandlers : st'.handlers = st.handlers ++ [e]) (hfree : st'.free = st.free)
    (hcalls : st'.calls = st.calls) (hposts : st'.posts = st.posts) (x : Holder) (p : Place) :
    st'.At x p ↔ st.At x p ∨ some x = e.holder ∧ p = .posted e.call := by
  cases p with
  | posted r => simp [At, hhandlers, carries_append he]
  | _ => simp [At, hfree, hcalls, hposts]

/-- The executor takes a handler to run it. -/
theorem at_takeHandler {l₁ l₂ : List Completion}
    (hnodup : (st.handlers.map (·.call)).Nodup) (hhandlers : st.handlers = l₁ ++ e :: l₂)
    (hhandlers' : st'.handlers = l₁ ++ l₂) (hfree : st'.free = st.free)
    (hcalls : st'.calls = st.calls) (hposts : st'.posts = st.posts) (x : Holder) (p : Place) :
    st'.At x p ↔ st.At x p ∧ ¬ (some x = e.holder ∧ p = .posted e.call) := by
  cases p with
  | posted r =>
      rw [hhandlers] at hnodup
      simpa [At, hhandlers, hhandlers'] using carries_remove hnodup r x
  | _ => simp [At, hfree, hcalls, hposts]

theorem at_deliver {k : Kind} (hempty : (st.calls c).place c = none) (x : Holder) (p : Place) :
    (st.deliver k c h).At x p ↔
      st.At x p ∨ x = h ∧ p = if k.isAsync then .posting c else .borrowed c := by
  cases hk : k.isAsync with
  | false =>
      have hput := at_putCall st (st.deliver k c h) (v := .holding h) hempty
        (by simp [deliver, hk]) rfl (by simp [deliver, hk]) rfl x p
      simpa [Call.place, eq_comm] using hput
  | true =>
      have hcall := at_putCall st (st.setCall c .initiated) hempty rfl rfl rfl rfl x p
      have hput := at_putPost (st.setCall c .initiated) (st.deliver k c h) (w := .initiate)
        (e := ⟨c, .success, some h⟩) (by simp [Completion.Exclusive])
        (by simp [deliver, setCall, hk]) rfl (by simp [deliver, hk]) rfl x p
      rw [hcall] at hput
      simpa [Call.place, eq_comm] using hput

end Delta

/-! ### One step -/

/-- Every holder is on the books and in one place. -/
structure Owned (st : Pool) : Prop where
  held : Held (· ∈ st.holders) st.At
  holders_nodup : st.holders.Nodup
  free_nodup : st.free.Nodup
  fresh : ∀ x ∈ st.holders, x < st.fresh

theorem owned_start (cfg : PoolConfig.Valid) (attempts : ℕ → Bool) :
    Owned (start cfg attempts) := by
  obtain ⟨n, -, hidle⟩ := start_eq cfg attempts
  rw [hidle]
  have hat (x : Holder) (p : Place) : (idle n).At x p ↔ p = .free ∧ x ∈ List.range n := by
    cases p <;> simp [At, idle, empty, carries, Call.place]
  refine ⟨⟨fun hx => ((hat _ _).mp hx).2, fun hx => ⟨.free, (hat _ _).mpr ⟨rfl, hx⟩⟩, ?_⟩,
    List.nodup_range, List.nodup_range, fun x hx => List.mem_range.mp hx⟩
  intro x p q hp hq
  rw [((hat x p).mp hp).1, ((hat x q).mp hq).1]

namespace Coherent

variable {st : Pool}

/-- No call has two handlers on their way or posted. -/
theorem handlers_nodup (h : Coherent st) :
    (st.posts.map (·.2.call) ++ st.handlers.map (·.call)).Nodup := by
  refine List.nodup_iff_count_le_one.mpr fun c => ?_
  have hcarried := h.carried c
  have hone : (st.calls c).owed ≤ 1 := by cases st.calls c <;> simp [Call.owed]
  have hposts : (st.posts.map (·.2.call)).count c = st.posts.countP (·.2.call = c) := by
    rw [List.count, List.countP_map]
    rfl
  have hhandlers : (st.handlers.map (·.call)).count c = st.handlers.countP (·.call = c) := by
    rw [List.count, List.countP_map]
    rfl
  rw [carriers] at hcarried
  rw [List.count_append, hposts, hhandlers]
  omega

end Coherent

namespace Owned

variable {st st' : Pool} {c : ℕ} {k : Kind} {x : Holder}

/-- A step that leaves every holder where it is. -/
theorem quiet (h : Owned st) (hat : ∀ y p, st'.At y p ↔ st.At y p)
    (hholders : st'.holders = st.holders) (hfree : st'.free = st.free)
    (hfresh : st'.fresh = st.fresh) : Owned st' := by
  refine ⟨⟨fun hy => ?_, fun hy => ?_, fun hp hq => ?_⟩, by rw [hholders]; exact h.holders_nodup,
    by rw [hfree]; exact h.free_nodup, by rw [hholders, hfresh]; exact h.fresh⟩
  · rw [hholders]
    exact h.held.booked ((hat _ _).mp hy)
  · rw [hholders] at hy
    exact (h.held.found hy).imp fun p => (hat _ p).mpr
  · exact h.held.unique ((hat _ _).mp hp) ((hat _ _).mp hq)

/-- A call goes on with empty hands. -/
theorem goes (h : Owned st) {v : Call} (hempty : (st.calls c).place c = none)
    (hv : v.place c = none) (hcalls : st'.calls = Function.update st.calls c v)
    (hposts : st'.posts = st.posts) (hhandlers : st'.handlers = st.handlers)
    (hholders : st'.holders = st.holders) (hfree : st'.free = st.free)
    (hfresh : st'.fresh = st.fresh) : Owned st' := by
  refine h.quiet (fun y p => ?_) hholders hfree hfresh
  rw [at_putCall st st' hempty hcalls hfree hposts hhandlers, hv]
  simp

/-- The front holder of the free list goes to a call. -/
theorem take (h : Owned st) {rest : List Holder} (hempty : (st.calls c).place c = none)
    (hfree : st.free = x :: rest) : Owned ({ st with free := rest }.deliver k c x) := by
  have hnodup := h.free_nodup
  rw [hfree, List.nodup_cons] at hnodup
  refine ⟨?_, h.holders_nodup, hnodup.2, h.fresh⟩
  have hat : st.At x .free := by simp [At, hfree]
  exact h.held.move hat
    (at_takeFree st { st with free := rest } h.free_nodup hfree rfl rfl rfl)
    (at_deliver { st with free := rest } hempty)

/-- A new holder is registered and goes to a call. -/
theorem register (h : Owned st) (hempty : (st.calls c).place c = none) :
    Owned ({ st with
      created := st.created + 1
      holders := st.holders ++ [st.fresh]
      fresh := st.fresh + 1 }.deliver k c st.fresh) := by
  have hnew : st.fresh ∉ st.holders := fun hin => Nat.lt_irrefl _ (h.fresh _ hin)
  refine ⟨?_, ?_, h.free_nodup, fun y hy => ?_⟩
  · exact h.held.issue hnew (at_deliver { st with
      created := st.created + 1
      holders := st.holders ++ [st.fresh]
      fresh := st.fresh + 1 } hempty) fun y => by simp [deliver]
  · exact h.holders_nodup.append (List.nodup_singleton _) (by simpa using hnew)
  · rcases List.mem_append.mp hy with hy | hy
    · exact Nat.lt_succ_of_lt (h.fresh y hy)
    · rw [List.mem_singleton.mp hy]
      exact Nat.lt_succ_self _

/-- A call with a holder in its hands passes it on to `q`, which nothing else
changes. -/
theorem pass (h : Owned st) {v : Call} {p q : Place} (hp : (st.calls c).place c = some (x, p))
    (hv : v.place c = none)
    (hput : ∀ y r, st'.At y r ↔ (st.setCall c v).At y r ∨ y = x ∧ r = q)
    (hholders : st'.holders = st.holders) (hfresh : st'.fresh = st.fresh)
    (hfree : st'.free.Nodup) : Owned st' := by
  refine ⟨?_, by rw [hholders]; exact h.holders_nodup, hfree,
    by rw [hholders, hfresh]; exact h.fresh⟩
  rw [hholders]
  exact h.held.move (at_of_place hp)
    (at_takeCall st (st.setCall c v) hp hv rfl rfl rfl rfl) hput

/-- A handler moves from the call that posts it to its executor. -/
theorem post (h : Owned st) (hcoh : Coherent st) (hans : Answered st) {e : Poster × Completion}
    (he : st.posts.find? (·.2.call = c) = some e) :
    Owned { st with
      posts := st.posts.eraseP (·.2.call = c)
      handlers := st.handlers ++ [e.2] } := by
  obtain ⟨-, l₁, l₂, hposts, herase⟩ := split_of_find? he
  have hmem : e ∈ st.posts := List.mem_of_find?_eq_some he
  have htake := at_takePost st { st with posts := st.posts.eraseP (·.2.call = c) }
    (List.nodup_append.mp hcoh.handlers_nodup).1 hposts herase rfl rfl rfl
  have hput := at_putHandler { st with posts := st.posts.eraseP (·.2.call = c) }
    { st with posts := st.posts.eraseP (·.2.call = c), handlers := st.handlers ++ [e.2] }
    (hans.posts e hmem) rfl rfl rfl rfl
  cases hholder : e.2.holder with
  | none => exact h.quiet (fun y p => by simp [hput, htake, hholder]) rfl rfl rfl
  | some x =>
      have hat : st.At x (.posting e.2.call) :=
        carries_of_mem (List.mem_map_of_mem hmem) (hans.posts e hmem) hholder
      simp only [hholder, Option.some.injEq] at htake hput
      exact ⟨h.held.move hat htake hput, h.holders_nodup, h.free_nodup, h.fresh⟩

/-- The executor runs a handler, whose call gets the holder it carries. -/
theorem runHandler (h : Owned st) (hcoh : Coherent st) (hans : Answered st)
    (he : handlerOf c st.handlers = some e) :
    Owned ({ st with handlers := st.handlers.eraseP (·.call = c) }.setCall c
      (match e.holder with
        | some x => .holding x
        | none => .returned)) := by
  obtain ⟨hcall, l₁, l₂, hhandlers, herase⟩ := split_of_find? he
  obtain rfl : e.call = c := by simpa using hcall
  have hmem : e ∈ st.handlers := List.mem_of_find?_eq_some he
  have hempty : (st.calls e.call).place e.call = none := by
    rw [hcoh.initiated_of_handler hmem rfl]
    rfl
  have htake := at_takeHandler st { st with handlers := st.handlers.eraseP (·.call = e.call) }
    (List.nodup_append.mp hcoh.handlers_nodup).2.1 hhandlers herase rfl rfl rfl
  have hput (v : Call) := at_putCall { st with handlers := st.handlers.eraseP (·.call = e.call) }
    ({ st with handlers := st.handlers.eraseP (·.call = e.call) }.setCall e.call v)
    hempty rfl rfl rfl rfl
  cases hholder : e.holder with
  | none => exact h.quiet (fun y p => by simp [hput, htake, hholder, Call.place]) rfl rfl rfl
  | some x =>
      have hat : st.At x (.posted e.call) := carries_of_mem hmem (hans.handlers e hmem) hholder
      have hput := hput (.holding x)
      simp only [hholder, Call.place, Option.some.injEq, Prod.mk.injEq] at htake hput
      exact ⟨h.held.move hat htake hput, h.holders_nodup, h.free_nodup, h.fresh⟩

end Owned

theorem owned_step {cfg : PoolConfig.Valid} {st st' : Pool} {a : Action} (hcoh : Coherent st)
    (hans : Answered st) (h : Owned st) (hstep : Step cfg st a st')
    (hs' : st'.isShutdown = false) : Owned st' := by
  have hopen (hs : st.isShutdown = true) (hsame : st'.isShutdown = st.isShutdown) : Owned st' := by
    rw [hsame, hs] at hs'
    cases hs'
  have hclosed (hc : st.closing ≠ .idle) (hsame : st'.isShutdown = st.isShutdown) : Owned st' :=
    hopen (by simpa using fun hs => hc (hcoh.flagged.mp hs)) hsame
  have hborrowed {c : ℕ} {x : Holder} (hc : st.calls c = .holding x) : st.At x (.borrowed c) :=
    at_of_place (by rw [hc]; rfl)
  -- a borrower lets go of its holder, which goes to `q`
  have hreset {c : ℕ} {x : Holder} (q : Place) (hc : st.calls c = .holding x)
      (hput : ∀ y r, st'.At y r ↔ (st.setCall c .returned).At y r ∨ y = x ∧ r = q)
      (hholders : st'.holders = st.holders) (hfresh : st'.fresh = st.fresh)
      (hfree : st'.free.Nodup) : Owned st' :=
    h.pass (v := .returned) (by rw [hc]; rfl) rfl hput hholders hfresh hfree
  cases hstep with
  | callAborted hc hs => exact hopen hs rfl
  | callEntered hc hs => exact h.goes (by rw [hc]; rfl) rfl rfl rfl rfl rfl rfl rfl
  | lockAborted hc hs => exact hopen hs rfl
  | lockTook hc hs hf => exact h.take (by rw [hc]; rfl) hf
  | lockCreating hc hs hf hcap => exact h.goes (by rw [hc]; rfl) rfl rfl rfl rfl rfl rfl rfl
  | @lockQueued c k hc hs hf hcap =>
      exact h.goes (by rw [hc]; rfl) (by cases k <;> rfl) rfl rfl rfl rfl rfl rfl
  | relockAborted hc hk hs => exact hopen hs rfl
  | relockCreated hc hs => exact h.register (by rw [hc]; rfl)
  | @relockQueued c k hc hs =>
      exact h.goes (by rw [hc]; rfl) (by cases k <;> rfl) rfl rfl rfl rfl rfl rfl
  | @wakeReady c expired timed x hc =>
      refine h.pass (v := .returned) (p := .assigned c) (q := .borrowed c) (by rw [hc]; rfl) rfl
        (fun y p => ?_) rfl rfl h.free_nodup
      refine (at_putCall (st.setCall c .returned) _ (c := c) (v := .holding x) ?_ ?_ ?_ ?_ ?_
        y p).trans ?_
      exacts [by simp [Call.place], by simp, rfl, rfl, rfl, by simp [Call.place]]
  | wakeLeft hc hs => exact h.goes (by rw [hc]; rfl) rfl rfl rfl rfl rfl rfl rfl
  | timerLost ha hc => exact h.quiet (fun y p => Iff.rfl) rfl rfl rfl
  | @timerWon c ha hc =>
      refine h.quiet (fun y p => ?_) rfl rfl rfl
      refine (at_putPost st _ (w := .timer) (e := ⟨c, .timedOut, none⟩) ?_ ?_ ?_ ?_ ?_ y p).trans ?_
      exacts [by simp [Completion.Exclusive], rfl, rfl, rfl, rfl, by simp]
  | posted hp => exact h.post hcoh hans hp
  | ran hp => exact h.runHandler hcoh hans hp
  | resetLate hc hs => exact hopen hs rfl
  | @resetParked c x hc hs hpop =>
      have hparked : x ∉ st.free := fun hin =>
        absurd (h.held.unique (hborrowed hc) (q := .free) hin) (by simp)
      refine hreset .free hc (at_putFree (st.setCall c .returned) _ rfl rfl rfl rfl) rfl rfl ?_
      exact h.free_nodup.append (List.nodup_singleton _) (by simpa using hparked)
  | @resetSync c w x rest hc hs hpop =>
      obtain ⟨hcw, timed, ht⟩ := hcoh.sync_of_pop hc hpop
      refine hreset (.assigned w) hc (fun y p => ?_) rfl rfl h.free_nodup
      refine (at_putCall (st.setCall c .returned) _ (c := w) (v := .waiting timed (some x)) ?_ ?_ ?_
        ?_ ?_ y p).trans ?_
      exacts [by simp [hcw, ht, Call.place], by simp [hcw, ht], rfl, rfl, rfl, by simp [Call.place]]
  | @resetAsync c w x rest hc hs hpop =>
      refine hreset (.posting w) hc (fun y p => ?_) rfl rfl h.free_nodup
      refine (at_putPost (st.setCall c .returned) _ (w := .release) (e := ⟨w, .success, some x⟩)
        ?_ ?_ ?_ ?_ ?_ y p).trans ?_
      exacts [by simp [Completion.Exclusive], rfl, rfl, rfl, rfl, by simp]
  | @resetDropped c x hc hs hh =>
      refine ⟨?_, h.holders_nodup.erase x, h.free_nodup,
        fun y hy => h.fresh y (List.mem_of_mem_erase hy)⟩
      refine h.held.retire (hborrowed hc)
        (at_takeCall st (st.setCall c .returned) (by rw [hc]; rfl) rfl rfl rfl rfl rfl) fun y => ?_
      exact h.holders_nodup.mem_erase_iff.trans and_comm
  | resetUnknown hc hs hh => exact absurd (h.held.booked (hborrowed hc)) hh
  | exchanged hc => cases hs'
  | exchangedAgain hc => exact h
  | cleared hc => exact hclosed (by simp [hc]) rfl
  | postedAborted hc => exact hclosed (by simp [hc]) rfl
  | shutdownReturned hc => exact hclosed (by simp [hc]) rfl

/-- What holds in every state of a run. -/
structure Invariant (st : Pool) : Prop where
  coherent : Coherent st
  answered : Answered st
  counted : Counted st
  owned : st.isShutdown = false → Owned st

theorem invariant_start (cfg : PoolConfig.Valid) (attempts : ℕ → Bool) :
    Invariant (start cfg attempts) :=
  ⟨coherent_start cfg attempts, answered_start cfg attempts, counted_start cfg attempts,
    fun _ => owned_start cfg attempts⟩

theorem invariant_step {cfg : PoolConfig.Valid} {st st' : Pool} {a : Action} (h : Invariant st)
    (hstep : Step cfg st a st') : Invariant st' where
  coherent := coherent_step h.coherent hstep
  answered := answered_step h.answered hstep
  counted := counted_step h.coherent.flagged h.counted hstep
  owned hs' := owned_step h.coherent h.answered (h.owned (open_of_step hstep hs')) hstep hs'

theorem invariant_of_run {cfg : PoolConfig.Valid} {attempts : ℕ → Bool} {as : List Action}
    {st : Pool} (h : run (step cfg) (start cfg attempts) as = some st) : Invariant st :=
  run_invariant (invariant_start cfg attempts)
    (fun _ _ _ hi hstep => invariant_step hi (step_cases hstep)) h

/-- The free list is a part of the books. -/
theorem Owned.length_lent {st : Pool} (h : Owned st) :
    (st.holders.filter (· ∉ st.free)).length + st.free.length = st.holders.length := by
  have hfree : (st.holders.filter (· ∈ st.free)).Perm st.free := by
    refine (List.perm_ext_iff_of_nodup (h.holders_nodup.filter _) h.free_nodup).mpr fun x => ?_
    have hbooked : x ∈ st.free → x ∈ st.holders := fun hx => h.held.booked (p := .free) hx
    simpa using hbooked
  have hsplit := List.length_eq_length_filter_add (l := st.holders) (· ∈ st.free)
  rw [hfree.length_eq] at hsplit
  simp only [decide_not] at *
  omega

theorem Invariant.activeCount_eq {st : Pool} (h : Invariant st) (hs : st.isShutdown = false) :
    st.activeCount = (st.holders.filter (· ∉ st.free)).length := by
  have := (h.owned hs).length_lent
  rw [activeCount, h.counted hs]
  omega

/-- In every interleaving and before shutdown, every holder is in exactly one
place and every holder in a place is on the books: it is once in the free
list, assigned to one waiter, carried by one handler that is posted or about to
be, or borrowed by one call. `created_` and `active_count()` say how many
holders there are and how many are not in the free list. -/
theorem exclusive_ownership (cfg : PoolConfig.Valid) (attempts : ℕ → Bool) (as : List Action)
    (st : Pool) (h : run (step cfg) (start cfg attempts) as = some st)
    (hs : st.isShutdown = false) :
    (∀ x ∈ st.holders, ∃! p, st.At x p) ∧ (∀ x p, st.At x p → x ∈ st.holders) ∧
      st.holders.Nodup ∧ st.free.Nodup ∧
      (st.posts.map (·.2.call) ++ st.handlers.map (·.call)).Nodup ∧
      st.created = st.holders.length ∧
      st.activeCount = (st.holders.filter (· ∉ st.free)).length := by
  have hinv := invariant_of_run h
  have howned := hinv.owned hs
  refine ⟨fun x hx => ?_, fun x p => howned.held.booked, howned.holders_nodup, howned.free_nodup,
    hinv.coherent.handlers_nodup, hinv.counted hs, hinv.activeCount_eq hs⟩
  obtain ⟨p, hp⟩ := howned.held.found hx
  exact ⟨p, hp, fun q hq => howned.held.unique hq hp⟩

/-- An asynchronous call finds the idle holder and posts its handler. -/
def handlerPosted : List Action := [.call 0 (.asyncAcquire false), .lock 0, .post 0]

theorem exclusive_ownership_handlerPosted :
    ∃ st, run (step single) (start single fun _ => true) handlerPosted = some st ∧
      st.isShutdown = false ∧ 0 ∈ st.holders ∧ st.At 0 (.posted 0) ∧ (∃! p, st.At 0 p) ∧
      st.activeCount = (st.holders.filter (· ∉ st.free)).length := by
  have hown := exclusive_ownership single (fun _ => true) handlerPosted _ rfl rfl
  exact ⟨_, rfl, rfl, List.mem_singleton_self 0, List.mem_singleton_self _,
    hown.1 0 (List.mem_singleton_self 0), hown.2.2.2.2.2.2⟩

/-- The call has left its critical section with the holder and has not posted
its handler yet: the holder is not in the free list, no waiter and no borrower
has it, and no handler is posted. -/
theorem handler_not_posted_yet :
    ∃ st, run (step single) (start single fun _ => true)
        [.call 0 (.asyncAcquire false), .lock 0] = some st ∧
      st.isShutdown = false ∧ 0 ∈ st.holders ∧ 0 ∉ st.free ∧ st.handlers = [] ∧
      ∀ c, (st.calls c).place c = none := by
  refine ⟨_, rfl, rfl, List.mem_singleton_self 0, List.not_mem_nil, rfl, fun c => ?_⟩
  match c with
  | 0 => rfl
  | n + 1 => rfl

end Pool

end Demiplane.Postgres

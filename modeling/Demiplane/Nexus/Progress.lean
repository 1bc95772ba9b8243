import Mathlib.Algebra.BigOperators.Group.Finset.Basic
import Mathlib.Logic.Hydra
import Demiplane.Nexus.Nested

/-!
Calls of `get` come to an end, however many threads make them and however their steps are
interleaved, as long as no factory gets a service that depends on its own. A thread that waits
for a construction mutex waits for a thread that is inside of the factory of that key, and so on
to the keys that the key depends on, until there is one that waits for nobody. That each step
brings an end nearer is seen from the calls on all stacks together: a step replaces a call by
one that is further on, and a factory that gets a service adds a call on a key below its own.
-/

namespace Demiplane.Nexus.Nested

open Relation (TransGen CutExpand)
open Transition

variable {φ κ ι τ : Type*} {dep : κ → κ → Prop} {callers : List (Suspended κ ι)}

/-! ### Stacks -/

/-- Each call of a stack is on a key that the factory it is inside of may get, and the factories
keep to `dep` in what they still have to do. -/
def Descends (dep : κ → κ → Prop) : κ → List (Suspended κ ι) → Prop
  | _, [] => True
  | k, caller :: callers =>
      dep k caller.key ∧ (∀ result, (caller.next result).Gets (dep · caller.key)) ∧
        Descends dep caller.key callers

theorem Descends.transGen {k : κ} (h : Descends dep k callers) :
    ∀ l ∈ callers.map (·.key), TransGen dep k l := by
  induction callers generalizing k with
  | nil => simp
  | cons caller callers ih =>
      intro l hl
      rcases List.mem_cons.mp hl with rfl | hl
      · exact .single h.1
      · exact .head h.1 (ih h.2.2 l hl)

/-- What the stage of a call says about it: the factory keeps to `dep`, and a call that waits for
the construction mutex has found the slot. -/
def Stage.Sound (dep : κ → κ → Prop) (s : World φ κ ι τ) (k : κ) : Stage φ κ ι → Prop
  | .factory script => script.Gets (dep · k)
  | .lock _ => s.slots k ≠ none
  | _ => True

namespace World

/-- Every stack is in order. -/
def Ordered (dep : κ → κ → Prop) (s : World φ κ ι τ) : Prop :=
  ∀ t, ∀ call ∈ s.calls t, call.stage.Sound dep s call.key ∧ Descends dep call.key call.callers

namespace Ordered

variable {s : World φ κ ι τ}

/-- Slots change but none is taken away. -/
theorem kept {s' : World φ κ ι τ} (h : Ordered dep s) (hcalls : s'.calls = s.calls)
    (hslots : ∀ k, s.slots k ≠ none → s'.slots k ≠ none) : Ordered dep s' := by
  intro t call hc
  rw [hcalls] at hc
  obtain ⟨hsound, hdesc⟩ := h t call hc
  refine ⟨?_, hdesc⟩
  cases hstage : call.stage with
  | lock f =>
      rw [hstage] at hsound
      exact hslots _ hsound
  | factory script =>
      rw [hstage] at hsound
      exact hsound
  | _ => trivial

theorem setSlot [DecidableEq κ] (h : Ordered dep s) (k : κ) (slot : Slot φ ι τ) :
    Ordered dep (s.setSlot k slot) := by
  refine h.kept rfl fun l hl => ?_
  by_cases hlk : l = k
  · subst hlk
    simp [World.setSlot]
  · simpa [World.setSlot, hlk] using hl

/-- The stack of one thread changes. -/
theorem setCall [DecidableEq τ] (h : Ordered dep s) {t : τ} {call' : Option (Call φ κ ι)}
    (hcall' : ∀ call ∈ call', call.stage.Sound dep s call.key ∧
      Descends dep call.key call.callers) : Ordered dep (s.setCall t call') := by
  intro u call hu
  by_cases hut : u = t
  · subst hut
    exact hcall' call (by simpa [World.setCall] using hu)
  · exact h u call (by simpa [World.setCall, hut] using hu)

/-- A call goes on in another stage. -/
theorem goto [DecidableEq τ] (h : Ordered dep s) {t : τ} {k : κ} {stage : Stage φ κ ι}
    (hsound : stage.Sound dep s k)
    (hdesc : Descends dep k callers) : Ordered dep (s.setCall t (some ⟨k, stage, callers⟩)) := by
  refine h.setCall ?_
  rintro call ⟨⟩
  exact ⟨hsound, hdesc⟩

/-- A call comes back to its caller. -/
theorem resume [DecidableEq τ] (h : Ordered dep s) {t : τ} {k : κ}
    (hdesc : Descends dep k callers)
    (result : Except NexusError (Option ι)) :
    Ordered dep (s.setCall t (Nested.resume result callers)) := by
  cases callers with
  | nil => exact h.setCall (by simp [Nested.resume])
  | cons caller callers => exact h.goto (hdesc.2.1 result) hdesc.2.2

end Ordered

/-! ### Waiting -/

/-- Thread `t` waits for the construction mutex of `k`. -/
def Waits (s : World φ κ ι τ) (t : τ) (k : κ) : Prop :=
  ∃ f callers, s.calls t = some ⟨k, .lock f, callers⟩ ∧ s.owner k ≠ none

/-- The thread that another waits for is inside of the factory of that key, or behind the lock of
it; in the end there is one that waits for nobody. -/
theorem exists_not_waits {s : World φ κ ι τ} (hwf : WellFounded dep) (hord : Ordered dep s)
    (hlocked : Locked s) {k : κ} {t : τ} (hwait : s.Waits t k) :
    ∃ u, s.calls u ≠ none ∧ ∀ l, ¬ s.Waits u l := by
  induction k using hwf.transGen.induction generalizing t with
  | _ k ih =>
      obtain ⟨f, callers, hc, howned⟩ := hwait
      obtain ⟨u, howner⟩ := Option.ne_none_iff_exists'.mp howned
      have hheld : k ∈ s.held u := (hlocked.owner_iff k u).mp howner
      cases hu : s.calls u with
      | none => simp [held, hu] at hheld
      | some call =>
          by_cases hfree : ∀ l, ¬ s.Waits u l
          · exact ⟨u, by simp [hu], hfree⟩
          · obtain ⟨l, hl⟩ := not_forall_not.mp hfree
            obtain ⟨f', callers', hu', howned'⟩ := hl
            have hmem : k ∈ callers'.map (·.key) := by
              simpa [held, hu', Call.held, Stage.locked] using hheld
            exact ih l ((hord u _ hu').2.transGen k hmem) ⟨f', callers', hu', howned'⟩

/-! ### Steps -/

variable [DecidableEq κ] [DecidableEq τ]

theorem ordered_of_moves {s s' : World φ κ ι τ} {t : τ} {now : ℤ} {script : Script κ ι}
    (hi : Ordered dep s) (hscript : ∀ call ∈ s.calls t, script.Gets (dep · call.key))
    (h : s.Moves t now script s') : Ordered dep s' := by
  cases h with
  | refused hc hs | lost hc hs => exact hi.resume (hi t _ hc).2 _
  | found hc hs hr | unlocked hc hs => exact (hi.setSlot _ _).resume (hi t _ hc).2 _
  | missed hc hs hr => exact hi.goto trivial (hi t _ hc).2
  | copied hc hs => exact hi.goto (by simp [Stage.Sound, hs]) (hi t _ hc).2
  | locked hc hs hm => exact (hi.setSlot _ _).goto trivial (hi t _ hc).2
  | foundBehind hc hs hr => exact (hi.setSlot _ _).goto trivial (hi t _ hc).2
  | stored hc hs => exact (hi.setSlot _ _).goto trivial (hi t _ hc).2
  | noFactory hc hr | returned hc | threw hc | dropped hc hs =>
      exact hi.goto trivial (hi t _ hc).2
  | @called k callers f hc hr =>
      have hgets : script.Gets (dep · k) := hscript _ hc
      exact hi.goto hgets (hi t _ hc).2
  | gets hc =>
      obtain ⟨hsound, hdesc⟩ := hi t _ hc
      exact hi.goto trivial ⟨hsound.1, hsound.2, hdesc⟩

theorem ordered_step {s s' : World φ κ ι τ} {a : Action φ κ ι τ} (hi : Ordered dep s)
    (ha : Obeys dep s a) (h : s.step a = some s') : Ordered dep s' := by
  cases a with
  | advance t now script => exact ordered_of_moves hi ha (moves_of_advance h)
  | begin t key =>
      simp only [step] at h
      split at h
      · obtain rfl := Option.some.inj h
        exact hi.goto trivial trivial
      · cases h
  | registerFactory key f lt | registerObject key sp lt now =>
      exact Option.some.inj h ▸ hi.setSlot _ _
  | sweep now useCount =>
      obtain rfl := Option.some.inj h
      refine hi.kept rfl fun k hk => ?_
      obtain ⟨slot, hslot⟩ := Option.ne_none_iff_exists'.mp hk
      simpa [hslot] using ha k slot hslot

/-- The next step of a thread that does not wait can be taken, whatever the time is and whatever
its factory does. -/
theorem advance_isSome {s : World φ κ ι τ} (hord : Ordered dep s) (hlocked : Locked s) {t : τ}
    {call : Call φ κ ι} (hc : s.calls t = some call) (hfree : ∀ k, ¬ s.Waits t k) (now : ℤ)
    (script : Script κ ι) : (s.step (.advance t now script)).isSome := by
  obtain ⟨k, stage, callers⟩ := call
  simp only [step, hc]
  cases stage with
  | fast =>
      simp only [advance]
      split <;> rfl
  | read =>
      simp only [advance]
      split <;> rfl
  | lock f =>
      have hslot : s.slots k ≠ none := (hord t _ hc).1
      obtain ⟨slot, hs⟩ := Option.ne_none_iff_exists'.mp hslot
      have howner : s.owner k = none := by
        by_contra howned
        exact hfree k ⟨f, callers, hc, howned⟩
      rw [owner_of_slot hs] at howner
      simp [advance, hs, howner]
  | check f =>
      simp only [advance]
      split
      · rfl
      · split <;> rfl
  | factory running => cases running <;> rfl
  | store obj =>
      simp only [advance]
      split <;> rfl
  | unlock result =>
      have howner : s.owner k = some t :=
        (hlocked.owner_iff k t).mpr (by simp [held, hc, Call.held, Stage.locked])
      cases hs : s.slots k with
      | none => simp [owner, hs] at howner
      | some slot => simp [advance, hs]

end World

/-! ### Every step is progress -/

/-- A call on a stack, running or waiting for a service. -/
inductive Point (φ κ ι : Type*) where
  | running (stage : Stage φ κ ι)
  | waiting (next : Except NexusError (Option ι) → Script κ ι)

/-- The stages in their order. A call stays in its factory while it waits. -/
def Point.rank : Point φ κ ι → ℕ
  | .running .fast => 6
  | .running .read => 5
  | .running (.lock _) => 4
  | .running (.check _) => 3
  | .running (.factory _) | .waiting _ => 2
  | .running (.store _) => 1
  | .running (.unlock _) => 0

/-- A factory gets a service, and goes on with what it has got. -/
inductive Inside : Point φ κ ι → Point φ κ ι → Prop
  | waiting (key : κ) (next : Except NexusError (Option ι) → Script κ ι) :
      Inside (.waiting next) (.running (.factory (.get key next)))
  | resumed (next : Except NexusError (Option ι) → Script κ ι)
      (result : Except NexusError (Option ι)) :
      Inside (.running (.factory (next result))) (.waiting next)

/-- A factory comes to an end, since what it does next is part of what it does. -/
theorem inside_wellFounded : WellFounded (Inside : Point φ κ ι → Point φ κ ι → Prop) := by
  have hwaiting (next : Except NexusError (Option ι) → Script κ ι)
      (h : ∀ result, Acc Inside (.running (.factory (next result)) : Point φ κ ι)) :
      Acc Inside (.waiting next : Point φ κ ι) := by
    refine ⟨_, fun q hq => ?_⟩
    cases hq with
    | resumed next result => exact h result
  have hfactory (script : Script κ ι) :
      Acc Inside (.running (.factory script) : Point φ κ ι) := by
    induction script with
    | get key next ih =>
        refine ⟨_, fun q hq => ?_⟩
        cases hq with
        | waiting => exact hwaiting next ih
    | returns obj => exact ⟨_, fun q hq => by cases hq⟩
    | throws => exact ⟨_, fun q hq => by cases hq⟩
  refine ⟨fun p => ⟨_, fun q hq => ?_⟩⟩
  cases hq with
  | waiting key next => exact hwaiting next fun _ => hfactory _
  | resumed next result => exact hfactory _

/-- One point is further on than another. -/
abbrev Follows : Point φ κ ι → Point φ κ ι → Prop :=
  InvImage (Prod.Lex (· < ·) Inside) fun p => (p.rank, p)

theorem follows_wellFounded : WellFounded (Follows : Point φ κ ι → Point φ κ ι → Prop) :=
  InvImage.wf _ (Nat.lt_wfRel.wf.prod_lex inside_wellFounded)

/-- The calls of a stack. -/
def Call.work (call : Call φ κ ι) : Multiset (κ × Point φ κ ι) :=
  (call.key, .running call.stage) ::ₘ
    Multiset.ofList (call.callers.map fun caller => (caller.key, .waiting caller.next))

/-- One call less on a stack, or one that is further on, or one below another. -/
abbrev Less (dep : κ → κ → Prop) (work' work : Multiset (κ × Point φ κ ι)) : Prop :=
  TransGen (CutExpand (Prod.Lex dep Follows)) work' work

theorem less_goto {k : κ} {stage stage' : Stage φ κ ι}
    (h : (Point.running stage').rank < (Point.running stage).rank) :
    Less dep (Call.work ⟨k, stage', callers⟩) (Call.work ⟨k, stage, callers⟩) := by
  refine .single ?_
  rw [Call.work, Call.work, ← Multiset.singleton_add, ← Multiset.singleton_add]
  exact Relation.cutExpand_single_add (.right k (.left _ _ h)) _

theorem less_resume {k : κ} {stage : Stage φ κ ι}
    (result : Except NexusError (Option ι)) :
    Less dep ((resume result callers : Option (Call φ κ ι)).elim 0 Call.work)
      (Call.work ⟨k, stage, callers⟩) := by
  have hgone (rest : Multiset (κ × Point φ κ ι)) :
      CutExpand (Prod.Lex dep Follows) rest ((k, .running stage) ::ₘ rest) := by
    rw [← Multiset.singleton_add]
    nth_rewrite 1 [← zero_add rest]
    exact (Relation.cutExpand_add_right rest).mpr (Relation.cutExpand_singleton (by simp))
  cases callers with
  | nil => exact .single (hgone 0)
  | cons caller callers =>
      refine .head ?_ (.single (hgone _))
      simp only [resume, Option.elim_some, Call.work, List.map_cons, ← Multiset.cons_coe]
      rw [← Multiset.singleton_add, ← Multiset.singleton_add]
      have hresumed : Inside (.running (.factory (caller.next result)) : Point φ κ ι)
          (.waiting caller.next) := .resumed caller.next result
      exact Relation.cutExpand_single_add (.right caller.key (.right 2 hresumed)) _

theorem less_gets {k key : κ} {next : Except NexusError (Option ι) → Script κ ι}
    (h : dep key k) :
    Less dep (Call.work (⟨key, .fast, ⟨k, next⟩ :: callers⟩ : Call φ κ ι))
      (Call.work ⟨k, .factory (.get key next), callers⟩) := by
  refine .single ?_
  simp only [Call.work, List.map_cons, ← Multiset.cons_coe]
  rw [← Multiset.singleton_add _ (_ ::ₘ _), ← Multiset.singleton_add _ (Multiset.ofList _),
    ← Multiset.singleton_add _ (Multiset.ofList _), ← add_assoc]
  refine (Relation.cutExpand_add_right _).mpr (Relation.cutExpand_singleton fun p hp => ?_)
  rcases Multiset.mem_add.mp hp with hp | hp
  · obtain rfl := Multiset.mem_singleton.mp hp
    exact .left _ _ h
  · obtain rfl := Multiset.mem_singleton.mp hp
    exact .right k (.right 2 (.waiting key next))

theorem less_wellFounded (hwf : WellFounded dep) :
    WellFounded (Less dep : Multiset (κ × Point φ κ ι) → _ → Prop) :=
  (hwf.prod_lex follows_wellFounded).cutExpand.transGen

namespace World

variable [Fintype τ]

/-- The calls of all threads. -/
def work (s : World φ κ ι τ) : Multiset (κ × Point φ κ ι) :=
  ∑ t, (s.calls t).elim 0 Call.work

theorem less_setCall [DecidableEq τ] {s base : World φ κ ι τ} {t : τ} {call : Call φ κ ι}
    {call' : Option (Call φ κ ι)} (hc : s.calls t = some call) (hbase : base.calls = s.calls)
    (h : Less dep (call'.elim 0 Call.work) call.work) :
    Less dep (base.setCall t call').work s.work := by
  have hs : s.work = call.work + ∑ u ∈ Finset.univ.erase t, (s.calls u).elim 0 Call.work := by
    rw [work, ← Finset.add_sum_erase _ _ (Finset.mem_univ t), hc]
    rfl
  have hs' : (base.setCall t call').work =
      call'.elim 0 Call.work + ∑ u ∈ Finset.univ.erase t, (s.calls u).elim 0 Call.work := by
    rw [work, ← Finset.add_sum_erase _ _ (Finset.mem_univ t)]
    refine congrArg₂ (· + ·) (by simp [setCall]) (Finset.sum_congr rfl fun u hu => ?_)
    simp [setCall, Finset.ne_of_mem_erase hu, hbase]
  rw [hs, hs']
  exact h.lift (· + _) fun _ _ hcut => (Relation.cutExpand_add_right _).mpr hcut

variable [DecidableEq κ] [DecidableEq τ]

theorem less_of_moves {s s' : World φ κ ι τ} {t : τ} {now : ℤ} {script : Script κ ι}
    (hord : Ordered dep s) (h : s.Moves t now script s') : Less dep s'.work s.work := by
  cases h with
  | refused hc hs | found hc hs hr | lost hc hs | unlocked hc hs =>
      exact less_setCall hc rfl (less_resume _)
  | gets hc =>
      have hsound := (hord t _ hc).1
      exact less_setCall hc rfl (less_gets hsound.1)
  | _ hc => exact less_setCall hc rfl (less_goto (by simp [Point.rank]))

/-- The other steps leave the calls as they are, but for one that begins. -/
theorem work_of_step {s s' : World φ κ ι τ} {a : Action φ κ ι τ} (hbegin : a.isBegin = false)
    (hadvance : a.isAdvance = false) (h : s.step a = some s') : s'.work = s.work := by
  cases a with
  | begin t key => cases hbegin
  | advance t now script => cases hadvance
  | _ => exact Option.some.inj h ▸ rfl

/-- An empty registry and threads that do nothing. -/
def start : World φ κ ι τ := ⟨fun _ => none, fun _ => none⟩

/-- In every interleaving of any number of calls of `get`, registrations and sweeps that erase
nothing, where no chain of factories goes on forever: as long as a call has not returned, some
thread can take its next step, whatever its factory does; and however the run goes on, the calls
take only finitely many steps if only finitely many are begun. -/
theorem gets_return (dep : κ → κ → Prop) (hwf : WellFounded dep) (as : List (Action φ κ ι τ))
    (s : World φ κ ι τ) (h : run step start as = some s) (hg : Guarded step (Obeys dep) start as) :
    ((∃ t, s.calls t ≠ none) → ∃ t, s.calls t ≠ none ∧
      ∀ now script, (s.step (.advance t now script)).isSome) ∧
    ∀ (worlds : ℕ → World φ κ ι τ) (actions : ℕ → Action φ κ ι τ), worlds 0 = s →
      Endless step (Obeys dep) worlds actions → (∃ N, ∀ n ≥ N, (actions n).isBegin = false) →
        ∃ N, ∀ n ≥ N, (actions n).isAdvance = false := by
  have hinv : Locked s ∧ Ordered dep s := by
    refine guarded_invariant (I := fun s _ => Locked s ∧ Ordered dep s) ⟨⟨?_, ?_⟩, ?_⟩
      (fun _ _ _ _ hi ha hstep => ⟨locked_step hi.1 ha hstep, ordered_step hi.2 ha hstep⟩) h hg
    · simp [start, owner, held]
    · simp [start, held]
    · simp [start, Ordered]
  obtain ⟨hlocked, hord⟩ := hinv
  refine ⟨fun hcalls => ?_, ?_⟩
  · obtain ⟨t, ht⟩ := hcalls
    have hfree : ∃ u, s.calls u ≠ none ∧ ∀ l, ¬ s.Waits u l := by
      by_cases hwait : ∃ k, s.Waits t k
      · obtain ⟨k, hk⟩ := hwait
        exact exists_not_waits hwf hord hlocked hk
      · exact ⟨t, ht, not_exists.mp hwait⟩
    obtain ⟨u, hu, hnot⟩ := hfree
    obtain ⟨call, hc⟩ := Option.ne_none_iff_exists'.mp hu
    exact ⟨u, hu, advance_isSome hord hlocked hc hnot⟩
  · rintro worlds actions rfl hendless ⟨N, hbegin⟩
    have hords := hendless.invariant (I := Ordered dep) hord fun _ _ _ hi => ordered_step hi
    have hless : ∀ n ≥ N, (actions n).isAdvance = true →
        Less dep (worlds (n + 1)).work (worlds n).work := by
      intro n _ hadvance
      have hstep := (hendless n).2
      cases ha : actions n with
      | advance t now script =>
          rw [ha] at hstep
          exact less_of_moves (hords n) (moves_of_advance hstep)
      | _ => simp [ha, Action.isAdvance] at hadvance
    have hsame : ∀ n ≥ N, ¬ (actions n).isAdvance = true →
        (worlds (n + 1)).work = (worlds n).work := fun n hn hadvance =>
      work_of_step (hbegin n hn) (Bool.eq_false_iff.mpr hadvance) (hendless n).2
    obtain ⟨M, hM⟩ := finitely_often (m := fun n => (worlds n).work)
      (P := fun n => (actions n).isAdvance = true) (less_wellFounded hwf) hless hsame
    exact ⟨M, fun n hn => Bool.eq_false_iff.mpr (hM n hn)⟩

/-- The factory of service 1 gets service 0, which another thread gets at the same time and has
to wait for. -/
def waitsForDependency : List (Action Unit ℕ ℕ Bool) :=
  [.registerFactory 0 () .immortal, .registerFactory 1 () .immortal, .begin true 1,
    .advance true 0 .throws, .advance true 0 .throws, .advance true 0 .throws,
    .advance true 0 (.get 0 fun _ => .returns (some 7)), .advance true 0 .throws,
    .advance true 0 .throws, .advance true 0 .throws, .advance true 0 .throws, .begin false 0,
    .advance false 0 .throws, .advance false 0 .throws]

theorem gets_return_waitsForDependency :
    ∃ s : World Unit ℕ ℕ Bool, run step start waitsForDependency = some s ∧
      s.Waits false 0 ∧ s.held true = [0, 1] ∧
      ∃ t, s.calls t ≠ none ∧ ∀ now script, (s.step (.advance t now script)).isSome := by
  have hg : Guarded step (Obeys (· < ·)) (start : World Unit ℕ ℕ Bool) waitsForDependency := by
    iterate 3 refine (guarded_cons rfl).mpr ⟨trivial, ?_⟩
    iterate 3 refine (guarded_cons rfl).mpr ⟨fun _ _ => trivial, ?_⟩
    refine (guarded_cons rfl).mpr ⟨fun call hc => ?_, ?_⟩
    · cases hc
      exact ⟨Nat.zero_lt_one, fun _ => trivial⟩
    · iterate 4 refine (guarded_cons rfl).mpr ⟨fun _ _ => trivial, ?_⟩
      refine (guarded_cons rfl).mpr ⟨trivial, ?_⟩
      iterate 2 refine (guarded_cons rfl).mpr ⟨fun _ _ => trivial, ?_⟩
      exact guarded_nil _ _
  refine ⟨_, rfl, ⟨some (), [], rfl, by simp [owner, setCall, setSlot]⟩, rfl, ?_⟩
  exact (gets_return (· < ·) Nat.lt_wfRel.wf waitsForDependency _ rfl hg).1 ⟨true, by
    simp [setCall]⟩

end World

end Demiplane.Nexus.Nested

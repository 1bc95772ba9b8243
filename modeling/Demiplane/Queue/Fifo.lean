import Mathlib.Data.List.Nodup
import Demiplane.Transition.Run

/-!
A first-come-first-served queue whose members may give up. Members enter at
the back, are served from the front and may quit from anywhere. When nobody
enters twice, the members served so far and those still queued are, in this
order, those that entered and have not quit; so nobody is served before
somebody who entered earlier and is still there.
-/

namespace Demiplane.Queue

open Transition

/-- What can happen to a queue. -/
inductive Event (W : Type*) where
  | enter (w : W)
  | serve (w : W)
  | quit (w : W)

variable {W : Type*}

def enters (es : List (Event W)) : List W :=
  es.filterMap fun
    | .enter w => some w
    | _ => none

def serves (es : List (Event W)) : List W :=
  es.filterMap fun
    | .serve w => some w
    | _ => none

def quits (es : List (Event W)) : List W :=
  es.filterMap fun
    | .quit w => some w
    | _ => none

@[simp] theorem enters_append (es fs : List (Event W)) :
    enters (es ++ fs) = enters es ++ enters fs := List.filterMap_append

@[simp] theorem serves_append (es fs : List (Event W)) :
    serves (es ++ fs) = serves es ++ serves fs := List.filterMap_append

@[simp] theorem quits_append (es fs : List (Event W)) :
    quits (es ++ fs) = quits es ++ quits fs := List.filterMap_append

variable [DecidableEq W]

def step (q : List W) : Event W → Option (List W)
  | .enter w => some (q ++ [w])
  | .serve w =>
      match q with
      | [] => none
      | v :: rest => if v = w then some rest else none
  | .quit w => if w ∈ q then some (q.filter (· ≠ w)) else none

/-- Those who entered and have not quit, in the order in which they entered. -/
def lasting (es : List (Event W)) : List W := (enters es).filter (· ∉ quits es)

/-- The members served and those still queued are the lasting ones. -/
structure Ordered (q : List W) (es : List (Event W)) : Prop where
  order : serves es ++ q = lasting es
  entered : ∀ w ∈ quits es, w ∈ enters es

theorem Ordered.enter {q : List W} {es : List (Event W)} {w : W} (h : Ordered q es)
    (hnew : w ∉ enters es) : Ordered (q ++ [w]) (es ++ [.enter w]) where
  order := by
    have hlasts : w ∉ quits es := fun hw => hnew (h.entered w hw)
    have hquits : quits (es ++ [.enter w]) = quits es := by simp [quits]
    have hserves : serves (es ++ [.enter w]) = serves es := by simp [serves]
    have henters : enters (es ++ [.enter w]) = enters es ++ [w] := by simp [enters]
    rw [lasting, hquits, hserves, henters, List.filter_append, ← lasting, ← h.order]
    simp [hlasts]
  entered v hv := by
    rw [enters_append]
    exact List.mem_append_left _ (h.entered v (by simpa [quits] using hv))

theorem Ordered.serve {q : List W} {es : List (Event W)} {w : W} (h : Ordered (w :: q) es) :
    Ordered q (es ++ [.serve w]) where
  order := by
    have hlasting : lasting (es ++ [.serve w]) = lasting es := by simp [lasting, enters, quits]
    rw [hlasting, ← h.order]
    simp [serves]
  entered v hv := by
    rw [enters_append]
    exact List.mem_append_left _ (h.entered v (by simpa [quits] using hv))

theorem Ordered.quit {q : List W} {es : List (Event W)} {w : W} (h : Ordered q es)
    (hnodup : (enters es).Nodup) (hw : w ∈ q) :
    Ordered (q.filter (· ≠ w)) (es ++ [.quit w]) where
  order := by
    have hquits : quits (es ++ [.quit w]) = quits es ++ [w] := by simp [quits]
    have hserves : serves (es ++ [.quit w]) = serves es := by simp [serves]
    have henters : enters (es ++ [.quit w]) = enters es := by simp [enters]
    -- whoever quits has not been served
    have hdistinct : (serves es ++ q).Nodup := h.order ▸ hnodup.filter _
    have hunserved : ∀ v ∈ serves es, v ≠ w := by
      rintro v hv rfl
      exact (List.nodup_append.mp hdistinct).2.2 v hv v hw rfl
    have hkeep : (serves es).filter (· ≠ w) = serves es :=
      List.filter_eq_self.mpr (by simpa using hunserved)
    calc serves (es ++ [.quit w]) ++ q.filter (· ≠ w)
        = (serves es ++ q).filter (· ≠ w) := by
          rw [hserves, List.filter_append, hkeep]
      _ = lasting (es ++ [.quit w]) := by
          rw [h.order, lasting, lasting, henters, hquits, List.filter_filter]
          congr 1
          funext v
          simp [and_comm]
  entered v hv := by
    have hin : w ∈ enters es :=
      List.mem_of_mem_filter (h.order ▸ List.mem_append_right _ hw : w ∈ lasting es)
    rw [quits_append, List.mem_append] at hv
    rw [enters_append]
    refine List.mem_append_left _ (hv.elim (h.entered v) fun hv => ?_)
    obtain rfl : v = w := by simpa [quits] using hv
    exact hin

/-- Members are served in the order in which they entered. -/
theorem ordered_of_run {es : List (Event W)} {q : List W} (h : run step [] es = some q)
    (hnodup : (enters es).Nodup) : Ordered q es := by
  induction es using List.reverseRecOn generalizing q with
  | nil =>
      obtain rfl : [] = q := by simpa [run] using h
      exact ⟨rfl, fun w hw => absurd hw List.not_mem_nil⟩
  | append_singleton es e ih =>
      obtain ⟨p, hp, hstep⟩ := run_snoc.mp h
      rw [enters_append, List.nodup_append] at hnodup
      have hord := ih hp hnodup.1
      cases e with
      | enter w =>
          obtain rfl := Option.some.inj hstep
          exact hord.enter fun hw => hnodup.2.2 w hw w (by simp [enters]) rfl
      | serve w =>
          simp only [step] at hstep
          split at hstep
          · cases hstep
          · split at hstep
            · rename_i v rest hvw
              obtain rfl := Option.some.inj hstep
              obtain rfl := hvw
              exact hord.serve
            · cases hstep
      | quit w =>
          simp only [step] at hstep
          split at hstep
          · rename_i hw
            obtain rfl := Option.some.inj hstep
            exact hord.quit hnodup.1 hw
          · cases hstep

/-- Nobody is overtaken: when `v`, who entered after `w`, is at the front,
then `w` has been served or has quit. -/
theorem served_or_quit {es fs : List (Event W)} {q : List W} {v w : W}
    (h : run step [] (es ++ fs) = some (v :: q)) (hnodup : (enters (es ++ fs)).Nodup)
    (hw : w ∈ enters es) (hv : v ∈ enters fs) :
    w ∈ serves (es ++ fs) ∨ w ∈ quits (es ++ fs) := by
  have hord := (ordered_of_run h hnodup).order
  by_cases hquit : w ∈ quits (es ++ fs)
  · exact .inr hquit
  · left
    rw [lasting, enters_append, List.filter_append] at hord
    have hlasts : w ∈ (enters es).filter (· ∉ quits (es ++ fs)) :=
      List.mem_filter.mpr ⟨hw, by simpa using hquit⟩
    -- the served members end before `v`, and those who entered before `v` too
    rcases List.append_eq_append_iff.mp hord with ⟨l, hearly, hl⟩ | ⟨l, hserved, -⟩
    · cases l with
      | nil =>
          rw [List.append_nil] at hearly
          rwa [← hearly]
      | cons u l =>
          obtain ⟨rfl, -⟩ := List.cons.inj hl
          have hmem : v ∈ (enters es).filter (· ∉ quits (es ++ fs)) := by
            rw [hearly]
            simp
          have hv' : v ∈ enters es := List.mem_of_mem_filter hmem
          rw [enters_append] at hnodup
          exact absurd rfl ((List.nodup_append.mp hnodup).2.2 v hv' v hv)
    · rw [hserved]
      exact List.mem_append_left _ hlasts

end Demiplane.Queue

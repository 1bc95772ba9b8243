import Mathlib.Algebra.BigOperators.Group.List.Basic
import Mathlib.Algebra.GroupWithZero.Nat
import Mathlib.Algebra.Order.BigOperators.Group.List
import Mathlib.Algebra.Order.Group.Nat

/-!
Lists of columns, each of them a head that begins with a mark and a tail. If the tails of one
list have no mark, its text has no other reading: another list with the same heads has the same
text only if it has the same tails.
-/

namespace Demiplane.Text

variable {γ α : Type*} [DecidableEq α] {mark : α} {sep close : List α} {head : γ → List α}

/-- Columns with a separator between them and a bracket behind the last one. -/
def columnsText (sep close : List α) (head tail : γ → List α) : List γ → List α
  | [] => close
  | [c] => head c ++ tail c ++ close
  | c :: d :: rest => head c ++ tail c ++ sep ++ columnsText sep close head tail (d :: rest)

omit [DecidableEq α] in
theorem columnsText_congr {left right : γ → List α} {cols : List γ}
    (h : ∀ c ∈ cols, left c = right c) :
    columnsText sep close head left cols = columnsText sep close head right cols := by
  induction cols with
  | nil => rfl
  | cons c cols ih =>
    have hc := h c List.mem_cons_self
    cases cols with
    | nil => rw [columnsText, columnsText, hc]
    | cons d rest =>
      rw [columnsText, columnsText, hc, ih fun c hc => h c (List.mem_cons_of_mem _ hc)]

theorem count_columnsText (hsep : mark ∉ sep) (hclose : mark ∉ close) (tail : γ → List α)
    (cols : List γ) :
    (columnsText sep close head tail cols).count mark =
      (cols.map fun c => (head c).count mark).sum +
        (cols.map fun c => (tail c).count mark).sum := by
  have hsep := List.count_eq_zero_of_not_mem hsep
  have hclose := List.count_eq_zero_of_not_mem hclose
  induction cols with
  | nil => simpa [columnsText] using hclose
  | cons c cols ih =>
    cases cols with
    | nil => simp [columnsText, hclose]
    | cons d rest =>
      rw [columnsText, List.count_append, List.count_append, List.count_append, ih, hsep]
      simp only [List.map_cons, List.sum_cons]
      omega

omit [DecidableEq α] in
/-- A text is cut at its first mark in one way only. -/
theorem append_mark_inj {a b r r' : List α} (ha : mark ∉ a) (hb : mark ∉ b)
    (h : a ++ mark :: r = b ++ mark :: r') : a = b ∧ r = r' := by
  induction a generalizing b with
  | nil =>
    cases b with
    | nil => exact ⟨rfl, (List.cons.inj h).2⟩
    | cons y b => exact absurd ((List.cons.inj h).1 ▸ List.mem_cons_self) hb
  | cons x a ih =>
    cases b with
    | nil => exact absurd ((List.cons.inj h).1 ▸ List.mem_cons_self) ha
    | cons y b =>
      obtain ⟨rfl, hrest⟩ := List.cons.inj h
      obtain ⟨rfl, rfl⟩ := ih (fun hmem => ha (List.mem_cons_of_mem _ hmem))
        (fun hmem => hb (List.mem_cons_of_mem _ hmem)) hrest
      exact ⟨rfl, rfl⟩

omit [DecidableEq α] in
/-- Where a mark begins every column and no tail has one, equal texts have equal tails. -/
theorem tails_eq_of_not_mem (hsep : mark ∉ sep) (hhead : ∀ c, ∃ h, head c = mark :: h)
    {left right : γ → List α} {cols : List γ} (hleft : ∀ c ∈ cols, mark ∉ left c)
    (hright : ∀ c ∈ cols, mark ∉ right c)
    (h : columnsText sep close head left cols = columnsText sep close head right cols) :
    ∀ c ∈ cols, left c = right c := by
  induction cols with
  | nil => simp
  | cons c cols ih =>
    cases cols with
    | nil =>
      rw [columnsText, columnsText] at h
      have hc := List.append_cancel_left (List.append_cancel_right h)
      simpa using hc
    | cons d rest =>
      -- the next column begins with a mark, whatever is in it
      have hnext (tail : γ → List α) : ∃ r,
          columnsText sep close head tail (d :: rest) = mark :: r := by
        obtain ⟨hd, hhd⟩ := hhead d
        cases rest <;> simp [columnsText, hhd]
      obtain ⟨r, hr⟩ := hnext left
      obtain ⟨r', hr'⟩ := hnext right
      rw [columnsText, columnsText, hr, hr', List.append_assoc, List.append_assoc (head c),
        List.append_assoc, List.append_assoc (head c)] at h
      have hcut := List.append_cancel_left h
      rw [← List.append_assoc, ← List.append_assoc] at hcut
      have hfree (tail : γ → List α) (ht : ∀ c' ∈ c :: d :: rest, mark ∉ tail c') :
          mark ∉ tail c ++ sep := by
        simp [ht c List.mem_cons_self, hsep]
      obtain ⟨hc, hrest⟩ := append_mark_inj (hfree left hleft) (hfree right hright) hcut
      have ih := ih (fun c' hc' => hleft c' (List.mem_cons_of_mem _ hc'))
        (fun c' hc' => hright c' (List.mem_cons_of_mem _ hc')) (by rw [hr, hr', hrest])
      intro c' hc'
      rcases List.mem_cons.1 hc' with rfl | hc'
      · exact List.append_cancel_right hc
      · exact ih c' hc'

/-- It is enough to know that of the tails of one of the texts: they have the same number of
marks. -/
theorem tails_eq_iff (hsep : mark ∉ sep) (hclose : mark ∉ close)
    (hhead : ∀ c, ∃ h, head c = mark :: h) {left right : γ → List α} {cols : List γ}
    (hleft : ∀ c ∈ cols, mark ∉ left c) :
    columnsText sep close head left cols = columnsText sep close head right cols ↔
      ∀ c ∈ cols, left c = right c := by
  refine ⟨fun h => ?_, columnsText_congr⟩
  have hzero : (cols.map fun c => (left c).count mark).sum = 0 := by
    rw [List.sum_eq_zero_iff]
    intro n hn
    obtain ⟨c, hc, rfl⟩ := List.mem_map.1 hn
    exact List.count_eq_zero_of_not_mem (hleft c hc)
  have hcount := congrArg (List.count mark) h
  rw [count_columnsText hsep hclose, count_columnsText hsep hclose, hzero] at hcount
  have hright : ∀ c ∈ cols, mark ∉ right c := by
    have hsum : (cols.map fun c => (right c).count mark).sum = 0 := by omega
    intro c hc
    exact List.count_eq_zero.1 (List.sum_eq_zero_iff.1 hsum _ (List.mem_map_of_mem hc))
  exact tails_eq_of_not_mem hsep hhead hleft hright h

end Demiplane.Text

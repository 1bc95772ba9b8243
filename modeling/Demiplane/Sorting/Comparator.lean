import Mathlib.Data.List.Basic
import Mathlib.Data.List.Perm.Basic
import Mathlib.Order.Defs.Unbundled
import Mathlib.Order.Lattice

/-!
Sorting by a comparator, as the algorithms of a standard library do it: the comparator
says when one value has to stand before another, and values of which it says nothing
stay in the order that they came in.

A stream that is nearly sorted has no value too far behind one that it should stand
before. `NearlySorted.notAfter_of_perm` is what a bounded buffer needs to know about such
a stream: once the buffer has let some values go, the values that it keeps stand between
those and all that comes later.
-/

namespace Demiplane.Sorting

variable {α : Type*}

/-- The comparators that a sorting algorithm asks for. -/
abbrev StrictWeak (less : α → α → Bool) : Prop := IsStrictWeakOrder α fun a b => less a b = true

/-- `a` may stand before `b`. -/
def notAfter (less : α → α → Bool) (a b : α) : Bool := !less b a

def Sorted (less : α → α → Bool) (xs : List α) : Prop :=
  xs.Pairwise fun a b => notAfter less a b = true

section Order

variable {less : α → α → Bool} [hless : StrictWeak less]

theorem not_less_self (a : α) : less a a ≠ true := hless.irrefl a

theorem less_trans {a b c : α} (hab : less a b = true) (hbc : less b c = true) :
    less a c = true :=
  hless.trans a b c hab hbc

theorem less_asymm {a b : α} (h : less a b = true) : less b a ≠ true :=
  fun hba => not_less_self a (less_trans h hba)

/-- A value that stands before another one stands before all that may follow that one. -/
theorem less_of_less_of_notAfter {a b c : α} (hab : less a b = true)
    (hbc : notAfter less b c = true) : less a c = true := by
  have hcb : less c b ≠ true := by simpa [notAfter] using hbc
  by_contra hac
  have hca : less c a ≠ true := fun hca => hcb (less_trans hca hab)
  by_cases hlt : less b c = true
  · exact hac (less_trans hab hlt)
  · -- `c` would be no different from `a`, nor from `b`
    exact (hless.incomp_trans a c b ⟨hac, hca⟩ ⟨hcb, hlt⟩).1 hab

theorem notAfter_trans (a b c : α) (hab : notAfter less a b = true)
    (hbc : notAfter less b c = true) : notAfter less a c = true := by
  have hba : less b a ≠ true := by simpa [notAfter] using hab
  have hca : less c a ≠ true := by
    intro hca
    have hcb : less c b = true := less_of_less_of_notAfter hca hab
    simp [notAfter, hcb] at hbc
  simpa [notAfter] using hca

theorem notAfter_total (a b : α) : (notAfter less a b || notAfter less b a) = true := by
  cases h : less b a with
  | false => simp [notAfter, h]
  | true =>
    have hab := less_asymm h
    simp [notAfter, hab]

theorem notAfter_of_less {a b : α} (h : less a b = true) : notAfter less a b = true := by
  have hba := less_asymm h
  simp [notAfter, hba]

end Order

/-- The comparator of values with an order of their own. -/
def lessOf [LinearOrder α] (a b : α) : Bool := decide (a < b)

instance [LinearOrder α] : StrictWeak (lessOf (α := α)) where
  irrefl a h := lt_irrefl a (of_decide_eq_true h)
  trans a b c hab hbc :=
    decide_eq_true (lt_trans (of_decide_eq_true hab) (of_decide_eq_true hbc))
  incomp_trans a b c hab hbc := by
    simp only [lessOf, decide_eq_true_eq, not_lt] at hab hbc ⊢
    exact ⟨le_trans hbc.1 hab.1, le_trans hab.2 hbc.2⟩

/-! ### Merging -/

/-- `std::merge` and `std::inplace_merge`: from the second range while its value has to
stand before that of the first one. -/
def merge (less : α → α → Bool) (xs ys : List α) : List α := xs.merge ys (notAfter less)

theorem merge_perm (less : α → α → Bool) (xs ys : List α) : (merge less xs ys).Perm (xs ++ ys) :=
  List.merge_perm_append _

theorem Sorted.merge {less : α → α → Bool} [StrictWeak less] {xs ys : List α}
    (hx : Sorted less xs) (hy : Sorted less ys) : Sorted less (merge less xs ys) :=
  List.pairwise_merge notAfter_trans notAfter_total xs ys hx hy

/-! ### Insertion -/

/-- `std::upper_bound`: the number of values in front of the first one that `key` has to
stand before. -/
def upperBound (less : α → α → Bool) (xs : List α) (key : α) : ℕ :=
  (xs.takeWhile fun x => !less key x).length

/-- `key` moves to its upper bound, and what is behind moves up. -/
def insertKey (less : α → α → Bool) (xs : List α) (key : α) : List α :=
  xs.take (upperBound less xs key) ++ key :: xs.drop (upperBound less xs key)

theorem insertKey_cons (less : α → α → Bool) (x : α) (xs : List α) (key : α) :
    insertKey less (x :: xs) key =
      if less key x then key :: x :: xs else x :: insertKey less xs key := by
  cases h : less key x with
  | true => simp [insertKey, upperBound, h]
  | false => simp [insertKey, upperBound, h]

theorem insertKey_perm (less : α → α → Bool) (xs : List α) (key : α) :
    (insertKey less xs key).Perm (xs ++ [key]) := by
  induction xs with
  | nil => exact List.Perm.refl _
  | cons x xs ih =>
    rw [insertKey_cons]
    split_ifs
    · exact (List.perm_append_singleton key (x :: xs)).symm
    · exact ih.cons x

theorem Sorted.insertKey {less : α → α → Bool} [StrictWeak less] {xs : List α}
    (h : Sorted less xs) (key : α) : Sorted less (insertKey less xs key) := by
  induction xs with
  | nil => exact List.pairwise_singleton _ key
  | cons x xs ih =>
    obtain ⟨hx, hxs⟩ := List.pairwise_cons.mp h
    rw [insertKey_cons]
    split_ifs with hkey
    · refine List.pairwise_cons.mpr ⟨fun y hy => ?_, h⟩
      rcases List.mem_cons.mp hy with rfl | hy
      · exact notAfter_of_less hkey
      · exact notAfter_of_less (less_of_less_of_notAfter hkey (hx y hy))
    · refine List.pairwise_cons.mpr ⟨fun y hy => ?_, ih hxs⟩
      rcases List.mem_append.mp ((insertKey_perm less xs key).mem_iff.mp hy) with hy | hy
      · exact hx y hy
      · obtain rfl := List.mem_singleton.mp hy
        simpa [notAfter] using hkey

/-- One value after the other goes to its upper bound in what has been sorted before it. -/
def insertionSort (less : α → α → Bool) : List α → List α
  | [] => []
  | x :: xs => xs.foldl (insertKey less) [x]

theorem foldl_insertKey_perm (less : α → α → Bool) (keys sorted : List α) :
    (keys.foldl (insertKey less) sorted).Perm (sorted ++ keys) := by
  induction keys generalizing sorted with
  | nil => simp
  | cons key keys ih =>
    have hkey := (insertKey_perm less sorted key).append_right keys
    rw [List.append_assoc] at hkey
    exact (ih _).trans hkey

theorem insertionSort_perm (less : α → α → Bool) (xs : List α) :
    (insertionSort less xs).Perm xs := by
  cases xs with
  | nil => exact List.Perm.refl _
  | cons x xs => exact foldl_insertKey_perm less xs [x]

theorem sorted_insertionSort (less : α → α → Bool) [StrictWeak less] (xs : List α) :
    Sorted less (insertionSort less xs) := by
  cases xs with
  | nil => exact List.Pairwise.nil
  | cons x xs =>
    have hfold : ∀ keys sorted : List α, Sorted less sorted →
        Sorted less (keys.foldl (Sorting.insertKey less) sorted) := by
      intro keys
      induction keys with
      | nil => exact fun sorted h => h
      | cons key keys ih => exact fun sorted h => ih _ (h.insertKey key)
    exact hfold xs [x] (List.pairwise_singleton _ x)

/-! ### Nearly sorted streams -/

/-- A value that has to stand before an earlier one is at most `d` positions behind it. -/
def NearlySorted (less : α → α → Bool) (d : ℕ) (xs : List α) : Prop :=
  ∀ i j a b, xs[i]? = some a → xs[j]? = some b → i < j → less b a = true → j - i ≤ d

/-- Of all that came before it, a value has to stand before `d` others at most. -/
theorem NearlySorted.countP_le {less : α → α → Bool} {d : ℕ} {before after : List α} {b : α}
    (h : NearlySorted less d (before ++ after)) (hb : b ∈ after) : before.countP (less b) ≤ d := by
  obtain ⟨k, hk⟩ := List.mem_iff_getElem?.mp hb
  have hfar : (before.take (before.length - d)).countP (less b) = 0 := by
    rw [List.countP_eq_zero]
    intro a ha hless
    obtain ⟨i, hi⟩ := List.mem_iff_getElem?.mp ha
    have hlt : i < before.length - d := by
      have := (List.getElem?_eq_some_iff.mp hi).1
      rw [List.length_take] at this
      omega
    have hi' : (before ++ after)[i]? = some a := by
      rw [List.getElem?_take_of_lt hlt] at hi
      rw [List.getElem?_append_left (by omega), hi]
    have hk' : (before ++ after)[before.length + k]? = some b := by
      rw [List.getElem?_append_right (by omega), Nat.add_sub_cancel_left, hk]
    have hd := h i (before.length + k) a b hi' hk' (by omega) hless
    omega
  calc before.countP (less b)
      = (before.take (before.length - d)).countP (less b) +
          (before.drop (before.length - d)).countP (less b) := by
        rw [← List.countP_append, List.take_append_drop]
    _ ≤ 0 + (before.drop (before.length - d)).length := by
        rw [hfar]
        exact Nat.add_le_add_left List.countP_le_length 0
    _ ≤ d := by
        rw [List.length_drop]
        omega

/-- `gone` and `kept` are what came before, and what is kept may follow all that is gone. If
enough is kept, what is still to come may follow all that is gone as well. -/
theorem NearlySorted.notAfter_of_perm {less : α → α → Bool} [StrictWeak less] {d : ℕ}
    {before after gone kept : List α} (h : NearlySorted less d (before ++ after))
    (hperm : (gone ++ kept).Perm before)
    (hkept : ∀ a ∈ gone, ∀ b ∈ kept, notAfter less a b = true) (hd : d ≤ kept.length) :
    ∀ a ∈ gone, ∀ b ∈ after, notAfter less a b = true := by
  intro a ha b hb
  by_contra hcon
  have hba : less b a = true := by simpa [notAfter] using hcon
  have hall : kept.countP (less b) = kept.length :=
    List.countP_eq_length.mpr fun c hc => less_of_less_of_notAfter hba (hkept a ha c hc)
  have hone : 0 < gone.countP (less b) := List.countP_pos_iff.mpr ⟨a, ha, hba⟩
  have hle := h.countP_le hb
  rw [← hperm.countP_eq, List.countP_append, hall] at hle
  omega

end Demiplane.Sorting

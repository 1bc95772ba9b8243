import Mathlib.Data.Multiset.Sort
import Demiplane.Algorithms.Operations

/-!
What a sorter is for: a bag of entries and a list of pending ones. Pending entries go into
the bag when there are enough of them, and the smallest entries of the bag go to the
consumer when the bag is as large as the window. Under a total order, however the sorter
sorts and merges, its consumer sees the batches of the bag.
-/

namespace Demiplane.Algorithms

open Sorting SlidingWindowSorter

variable {α : Type*}

/-- A configuration with a total order, by which entries are sorted. -/
structure TotalConfig (α : Type*) extends LawfulConfig α where
  sorting : enableSorting = true
  eq_of_incomparable : ∀ a b, comparator a b = false → comparator b a = false → a = b

namespace TotalConfig

variable (c : TotalConfig α)

def le (a b : α) : Prop := notAfter c.comparator a b = true

instance : DecidableRel c.le := fun _ _ => inferInstanceAs (Decidable (_ = true))

instance : StrictWeak c.comparator := c.strictWeak

instance : IsTrans α c.le := ⟨notAfter_trans⟩

instance : Std.Antisymm c.le where
  antisymm a b hab hba := by
    refine c.eq_of_incomparable a b ?_ ?_
    · simpa [le, notAfter] using hba
    · simpa [le, notAfter] using hab

instance : Std.Total c.le where
  total a b := by simpa [le] using notAfter_total a b

end TotalConfig

structure SortedBag (α : Type*) where
  config : TotalConfig α
  bag : Multiset α
  pending : List α
  batches : List (List α)

namespace SortedBag

def make (c : TotalConfig α) : SortedBag α := ⟨c, 0, [], []⟩

/-- The entries of the bag in ascending order. -/
def ascending (m : SortedBag α) : List α := m.bag.sort m.config.le

def move (m : SortedBag α) : SortedBag α := { m with bag := m.bag + m.pending, pending := [] }

/-- How many entries are due: all of them by force, and otherwise none as long as the bag is
smaller than the window. -/
def due (m : SortedBag α) (forceAll : Bool) : ℕ :=
  if forceAll then m.bag.card
  else if m.config.windowSize ≤ m.bag.card then
    max (m.bag.card - m.config.windowSize) m.config.batchSize
  else 0

/-- The `n` smallest entries, or all if there are fewer, are one batch; there is no batch
without entries. -/
def deliver (m : SortedBag α) (n : ℕ) : SortedBag α :=
  { m with
    bag := (m.ascending.drop n : Multiset α)
    batches := m.batches ++ calls (m.ascending.take n) }

def process (m : SortedBag α) (forceAll : Bool) : SortedBag α :=
  m.move.deliver (m.move.due forceAll)

def add (m : SortedBag α) (entries : List α) : SortedBag α :=
  let m := { m with pending := m.pending ++ entries }
  if m.config.batchSize ≤ m.pending.length then m.process false else m

def flush (m : SortedBag α) : SortedBag α := m.process true

def perform (m : SortedBag α) : Operation α (TotalConfig α) → SortedBag α
  | .addEntry entry => m.add [entry]
  | .addEntries entries => m.add entries
  | .flush => m.flush
  | .reconfigure config => { m.flush with config := config }

/-! ### The bag between operations -/

/-- The bag is no larger than the window, and nothing is pending that is due. -/
structure Settled (m : SortedBag α) : Prop where
  card_le : m.bag.card ≤ m.config.windowSize
  pending : m.pending = [] ∨ m.pending.length < m.config.batchSize

theorem settled_process (m : SortedBag α) (forceAll : Bool) : (m.process forceAll).Settled := by
  refine ⟨?_, .inl rfl⟩
  have hdue : m.move.bag.card - m.move.due forceAll ≤ m.move.config.windowSize := by
    unfold due
    split_ifs <;> omega
  simpa [process, deliver, ascending] using hdue

theorem settled_add {m : SortedBag α} (h : m.Settled) (entries : List α) :
    (m.add entries).Settled := by
  unfold add
  dsimp only
  split_ifs with hdue
  · exact settled_process _ false
  · exact ⟨h.card_le, .inr (Nat.lt_of_not_le hdue)⟩

/-- On force everything goes. -/
theorem bag_flush (m : SortedBag α) : m.flush.bag = 0 := by
  have hall : m.move.ascending.drop m.move.bag.card = [] := by
    refine List.drop_eq_nil_of_le ?_
    simp [ascending]
  simpa [flush, process, deliver, due] using hall

theorem Settled.perform {m : SortedBag α} (h : m.Settled) (op : Operation α (TotalConfig α)) :
    (m.perform op).Settled := by
  cases op with
  | addEntry entry => exact settled_add h [entry]
  | addEntries entries => exact settled_add h entries
  | flush => exact settled_process m true
  | reconfigure c =>
    refine ⟨?_, .inl rfl⟩
    have hempty := bag_flush m
    simp [SortedBag.perform, hempty]

/-- Nothing happens when nothing is added. -/
theorem Settled.add_nil {m : SortedBag α} (h : m.Settled) : m.add [] = m := by
  obtain ⟨c, bag, pending, batches⟩ := m
  unfold add
  simp only [List.append_nil]
  split_ifs with hdue
  · have hnone : pending = [] := h.pending.resolve_right (Nat.not_lt.mpr hdue)
    subst hnone
    have hbatch : c.batchSize = 0 := Nat.le_zero.mp hdue
    have hle : bag.card ≤ c.windowSize := h.card_le
    simp [process, deliver, move, ascending, due, hbatch, hle, calls]
  · rfl

/-! ### The sorter is such a bag -/

/-- The window is the bag in ascending order. -/
structure Represents (s : SlidingWindowSorter α) (m : SortedBag α) : Prop where
  config : s.config = m.config.toSlidingWindowConfig
  window : s.sortedWindow.entries = m.ascending
  pending : s.newEntries.entries = m.pending
  batches : s.batches = m.batches

section

variable (std : StandardLibrary α) {s : SlidingWindowSorter α} {m : SortedBag α}

theorem represents_make (c : TotalConfig α) :
    Represents (SlidingWindowSorter.make std c.toSlidingWindowConfig) (make c) where
  config := rfl
  window := by simp [SlidingWindowSorter.make, reserveBuffers, Buffer.empty, make, ascending]
  pending := by simp [SlidingWindowSorter.make, reserveBuffers, Buffer.empty, make]
  batches := rfl

theorem Represents.strictWeak (h : Represents s m) : StrictWeak s.config.comparator := by
  rw [h.config]
  exact m.config.strictWeak

theorem Represents.sorted (h : Represents s m) :
    Sorted s.config.comparator s.sortedWindow.entries := by
  rw [h.config, h.window]
  exact Multiset.pairwise_sort _ m.config.le

/-- There is only one way to sort by a total order. -/
theorem Represents.gather (h : Represents s m) : Represents (s.gather std) m.move := by
  have hweak := h.strictWeak
  have hgathered := gathered_gather std s fun _ => h.sorted
  refine ⟨hgathered.config.trans h.config, ?_, hgathered.newEntries,
    hgathered.batches.trans h.batches⟩
  have hsorted := hgathered.sorted (by rw [h.config]; exact m.config.sorting)
  rw [h.config] at hsorted
  refine List.Perm.eq_of_pairwise' (r := m.config.le) hsorted (Multiset.pairwise_sort _ _) ?_
  have hperm : m.move.ascending.Perm (m.ascending ++ m.pending) := by
    refine Multiset.coe_eq_coe.mp ?_
    simp [ascending, move, ← Multiset.coe_add]
  have hwindow := hgathered.perm
  rw [h.window, h.pending] at hwindow
  exact hwindow.trans hperm.symm

theorem Represents.outputCount (h : Represents s m) (forceAll : Bool) :
    s.outputCount forceAll = m.due forceAll := by
  have hcard : s.sortedWindow.entries.length = m.bag.card := by
    rw [h.window]
    simp [ascending]
  unfold SlidingWindowSorter.outputCount calculateOutputCount due
  rw [hcard, h.config]
  split_ifs <;> first | rfl | omega

theorem Represents.emit (h : Represents s m) (forceAll : Bool) :
    Represents (s.emit forceAll) (m.deliver (m.due forceAll)) := by
  have hemitted := emitted_emit s forceAll
  rw [h.outputCount] at hemitted
  refine ⟨hemitted.config.trans h.config, ?_, ?_, ?_⟩
  · rw [hemitted.window, h.window]
    -- what is left of an ascending list is the ascending list of what is left
    refine List.Perm.eq_of_pairwise' (r := m.config.le) ?_ (Multiset.pairwise_sort _ _) ?_
    · exact (Multiset.pairwise_sort _ _).sublist (List.drop_sublist _ _)
    · exact Multiset.coe_eq_coe.mp (Multiset.sort_eq _ _).symm
  · rw [hemitted.newEntries]
    exact h.pending
  · rw [hemitted.batches, h.batches, h.window]
    rfl

theorem process_of_empty (hbag : m.bag = 0) (hpending : m.pending = []) (forceAll : Bool) :
    m.process forceAll = m := by
  obtain ⟨c, bag, pending, batches⟩ := m
  subst hbag hpending
  simp [process, deliver, move, ascending, calls]

theorem Represents.processBatch (h : Represents s m) (forceAll : Bool) :
    Represents (s.processBatch std forceAll) (m.process forceAll) := by
  rw [processBatch_eq]
  split_ifs with hempty
  · have hbag : m.bag = 0 := by
      have hwindow := h.window
      rw [hempty.2] at hwindow
      rw [← Multiset.sort_eq m.bag m.config.le]
      exact congrArg _ hwindow.symm
    rwa [process_of_empty hbag (h.pending.symm.trans hempty.1)]
  · rw [maintainWindowSize_emit]
    exact (h.gather std).emit forceAll

theorem Represents.processIfDue (h : Represents s m) :
    Represents (s.processIfDue std)
      (if m.config.batchSize ≤ m.pending.length then m.process false else m) := by
  have hdue : s.shouldProcess = decide (m.config.batchSize ≤ m.pending.length) := by
    rw [shouldProcess, h.config, h.pending]
  unfold SlidingWindowSorter.processIfDue
  simp only [hdue, decide_eq_true_eq]
  split_ifs
  · exact h.processBatch std false
  · exact h

theorem Represents.push (h : Represents s m) (entries : List α) :
    Represents { s with newEntries := s.newEntries.append std entries }
      { m with pending := m.pending ++ entries } :=
  ⟨h.config, h.window, congrArg (· ++ entries) h.pending, h.batches⟩

theorem Represents.flush (h : Represents s m) : Represents (s.flush std) m.flush := by
  unfold SlidingWindowSorter.flush
  split_ifs with hleft
  · exact h.processBatch std true
  · have hforced := h.processBatch std true
    rw [processBatch_eq, if_pos (by tauto)] at hforced
    exact hforced

theorem Represents.perform (h : Represents s m) (hm : m.Settled)
    (op : Operation α (TotalConfig α)) :
    Represents (s.perform std (op.map TotalConfig.toLawfulConfig)) (m.perform op) := by
  cases op with
  | addEntry entry => exact (h.push std [entry]).processIfDue std
  | addEntries entries =>
    by_cases hempty : entries = []
    · subst hempty
      rw [SortedBag.perform, hm.add_nil]
      exact h
    · have hadd : s.perform std (.addEntries entries) =
          SlidingWindowSorter.processIfDue std
            { s with newEntries := s.newEntries.append std entries } := if_neg hempty
      rw [Operation.map, hadd]
      exact (h.push std entries).processIfDue std
  | flush => exact h.flush std
  | reconfigure c =>
    have hflush := h.flush std
    refine ⟨rfl, ?_, ?_, hflush.batches⟩
    · have hwindow := hflush.window
      rw [ascending, bag_flush, Multiset.sort_zero] at hwindow
      simp [Operation.map, SlidingWindowSorter.perform, SlidingWindowSorter.reconfigure,
        reserveBuffers, hwindow, SortedBag.perform, ascending, bag_flush]
    · simp only [Operation.map, SlidingWindowSorter.perform, SlidingWindowSorter.reconfigure,
        reserveBuffers, Buffer.entries_reserve]
      exact hflush.pending

theorem Represents.operations (h : Represents s m) (hm : m.Settled)
    (ops : List (Operation α (TotalConfig α))) :
    Represents ((ops.map (Operation.map TotalConfig.toLawfulConfig)).foldl
      (SlidingWindowSorter.perform std) s) (ops.foldl SortedBag.perform m) := by
  induction ops generalizing s m with
  | nil => exact h
  | cons op ops ih => exact ih (h.perform std hm op) (hm.perform op)

end

/-- Whatever the standard library does and whichever way of merging is taken, the consumer
of a sorter with a total order is given the batches of the bag. -/
theorem batches_eq_sortedBag (std : StandardLibrary α) (c : TotalConfig α)
    (ops : List (Operation α (TotalConfig α))) :
    ((ops.map (Operation.map TotalConfig.toLawfulConfig)).foldl (SlidingWindowSorter.perform std)
        (SlidingWindowSorter.make std c.toSlidingWindowConfig)).batches =
      (ops.foldl perform (make c)).batches :=
  ((represents_make std c).operations std ⟨Nat.zero_le _, .inl rfl⟩ ops).batches

def totalThreeWindow : TotalConfig ℕ where
  toLawfulConfig := lawfulThreeWindow
  sorting := rfl
  eq_of_incomparable _ _ hab hba :=
    le_antisymm (not_lt.mp (of_decide_eq_false hba)) (not_lt.mp (of_decide_eq_false hab))

theorem batches_eq_sortedBag_threeWindow :
    ([.addEntries [2, 3, 1, 4], .flush].foldl (SlidingWindowSorter.perform plainLibrary)
        (SlidingWindowSorter.make plainLibrary threeWindow)).batches =
      ([.addEntries [2, 3, 1, 4], .flush].foldl perform (make totalThreeWindow)).batches :=
  batches_eq_sortedBag plainLibrary totalThreeWindow [.addEntries [2, 3, 1, 4], .flush]

end SortedBag

end Demiplane.Algorithms

import Mathlib.Order.Nat
import Demiplane.Sorting.Comparator

/-!
`SlidingWindowSorter`: a window of sorted entries, pending entries that are sorted and
merged into the window once there are enough of them, and batches of the smallest entries
that go to the consumer when the window is full.

What the standard library leaves open is a parameter: in which order `std::sort` leaves
equivalent entries, and what capacities vectors have, on which the way of merging
depends.
-/

namespace Demiplane.Algorithms

open Sorting

variable {α : Type*}

/-! ### Vectors -/

/-- The promises of the standard library that the sorter relies on. `reserved c n` and
`grow c n` are the capacities after a `reserve` of `n` entries and an insertion up to `n`
entries, where there was room for `c`, and `moved c` is the capacity of a vector that had
`c` and has been moved from. -/
structure StandardLibrary (α : Type*) where
  sort : (α → α → Bool) → List α → List α
  sort_perm : ∀ (less : α → α → Bool) [StrictWeak less] xs, (sort less xs).Perm xs
  sorted_sort : ∀ (less : α → α → Bool) [StrictWeak less] xs, Sorted less (sort less xs)
  reserved : ℕ → ℕ → ℕ
  le_reserved : ∀ c n, n ≤ reserved c n
  grow : ℕ → ℕ → ℕ
  le_grow : ∀ c n, n ≤ grow c n
  moved : ℕ → ℕ

structure Buffer (α : Type*) where
  entries : List α
  capacity : ℕ
  deriving DecidableEq, Repr

namespace Buffer

def empty : Buffer α := ⟨[], 0⟩

def reserve (std : StandardLibrary α) (b : Buffer α) (n : ℕ) : Buffer α :=
  if b.capacity < n then { b with capacity := std.reserved b.capacity n } else b

/-- `insert` at the end. -/
def append (std : StandardLibrary α) (b : Buffer α) (xs : List α) : Buffer α :=
  let size := b.entries.length + xs.length
  ⟨b.entries ++ xs, if b.capacity < size then std.grow b.capacity size else b.capacity⟩

def clear (b : Buffer α) : Buffer α := { b with entries := [] }

/-- The buffer after its entries have been moved to another one. -/
def moved (std : StandardLibrary α) (b : Buffer α) : Buffer α := ⟨[], std.moved b.capacity⟩

/-- `erase` of the first `n` entries. -/
def eraseFirst (b : Buffer α) (n : ℕ) : Buffer α := { b with entries := b.entries.drop n }

@[simp] theorem entries_reserve (std : StandardLibrary α) (b : Buffer α) (n : ℕ) :
    (b.reserve std n).entries = b.entries := by
  unfold reserve
  split_ifs <;> rfl

@[simp] theorem entries_append (std : StandardLibrary α) (b : Buffer α) (xs : List α) :
    (b.append std xs).entries = b.entries ++ xs := rfl

@[simp] theorem entries_clear (b : Buffer α) : b.clear.entries = [] := rfl

@[simp] theorem entries_eraseFirst (b : Buffer α) (n : ℕ) :
    (b.eraseFirst n).entries = b.entries.drop n := rfl

end Buffer

/-! ### The sorter -/

structure SlidingWindowConfig (α : Type*) where
  windowSize : ℕ
  batchSize : ℕ
  enableSorting : Bool
  comparator : α → α → Bool
  useInplaceMerge : Bool
  mergeThreshold : ℕ

/-- `batches` is what the consumer has been called with. -/
structure SlidingWindowSorter (α : Type*) where
  config : SlidingWindowConfig α
  sortedWindow : Buffer α
  newEntries : Buffer α
  mergeBuffer : Buffer α
  batches : List (List α)
  totalProcessed : ℕ
  mergeOperations : ℕ
  sortOperations : ℕ

namespace SlidingWindowSorter

def reserveBuffers (std : StandardLibrary α) (s : SlidingWindowSorter α) : SlidingWindowSorter α :=
  { s with
    sortedWindow := s.sortedWindow.reserve std s.config.windowSize
    newEntries := s.newEntries.reserve std s.config.batchSize
    mergeBuffer := s.mergeBuffer.reserve std (s.config.windowSize + s.config.batchSize) }

/-- The constructor. -/
def make (std : StandardLibrary α) (config : SlidingWindowConfig α) : SlidingWindowSorter α :=
  reserveBuffers std ⟨config, .empty, .empty, .empty, [], 0, 0, 0⟩

def shouldProcess (s : SlidingWindowSorter α) : Bool :=
  s.config.batchSize ≤ s.newEntries.entries.length

def canUseInplaceMerge (s : SlidingWindowSorter α) : Bool :=
  s.sortedWindow.entries.length + s.newEntries.entries.length ≤ s.sortedWindow.capacity

def performInplaceMerge (std : StandardLibrary α) (s : SlidingWindowSorter α) :
    SlidingWindowSorter α :=
  let oldSize := s.sortedWindow.entries.length
  let window := s.sortedWindow.append std s.newEntries.entries
  { s with
    sortedWindow :=
      { window with
        entries := merge s.config.comparator (window.entries.take oldSize)
          (window.entries.drop oldSize) } }

def performStandardMerge (std : StandardLibrary α) (s : SlidingWindowSorter α) :
    SlidingWindowSorter α :=
  let size := s.sortedWindow.entries.length + s.newEntries.entries.length
  let merged := (s.mergeBuffer.clear.reserve std size).append std
    (merge s.config.comparator s.sortedWindow.entries s.newEntries.entries)
  { s with sortedWindow := merged, mergeBuffer := (merged.moved std).clear }

def mergeWithWindow (std : StandardLibrary α) (s : SlidingWindowSorter α) :
    SlidingWindowSorter α :=
  let s' :=
    if s.config.useInplaceMerge ∧ s.canUseInplaceMerge then s.performInplaceMerge std
    else s.performStandardMerge std
  { s' with newEntries := s'.newEntries.clear }

/-- `insertion_sort` or `std::sort`, by the number of entries. -/
def sortNewEntries (std : StandardLibrary α) (s : SlidingWindowSorter α) : SlidingWindowSorter α :=
  let sorted :=
    if s.newEntries.entries.length ≤ s.config.mergeThreshold then
      insertionSort s.config.comparator s.newEntries.entries
    else std.sort s.config.comparator s.newEntries.entries
  { s with
    newEntries := { s.newEntries with entries := sorted }
    sortOperations := s.sortOperations + 1 }

def sortAndMerge (std : StandardLibrary α) (s : SlidingWindowSorter α) : SlidingWindowSorter α :=
  if s.newEntries.entries = [] then s
  else
    let s := s.sortNewEntries std
    if s.sortedWindow.entries = [] then
      { s with sortedWindow := s.newEntries, newEntries := (s.newEntries.moved std).clear }
    else
      let s := s.mergeWithWindow std
      { s with mergeOperations := s.mergeOperations + 1 }

/-- The entries go into the window as they come. -/
def appendUnsorted (std : StandardLibrary α) (s : SlidingWindowSorter α) : SlidingWindowSorter α :=
  { s with
    sortedWindow := s.sortedWindow.append std s.newEntries.entries
    newEntries := s.newEntries.clear }

def calculateOutputCount (s : SlidingWindowSorter α) : ℕ :=
  if s.sortedWindow.entries.length < s.config.windowSize then 0
  else max (s.sortedWindow.entries.length - s.config.windowSize) s.config.batchSize

def outputEntries (s : SlidingWindowSorter α) (count : ℕ) : SlidingWindowSorter α :=
  if count = 0 ∨ s.sortedWindow.entries = [] then s
  else
    let output := s.sortedWindow.entries.take (min count s.sortedWindow.entries.length)
    { s with
      sortedWindow := s.sortedWindow.eraseFirst (min count s.sortedWindow.entries.length)
      batches := s.batches ++ [output]
      totalProcessed := s.totalProcessed + output.length }

def maintainWindowSize (s : SlidingWindowSorter α) : SlidingWindowSorter α :=
  if s.config.windowSize < s.sortedWindow.entries.length then
    { s with
      sortedWindow :=
        s.sortedWindow.eraseFirst (s.sortedWindow.entries.length - s.config.windowSize) }
  else s

/-- How many entries `process_batch` gives to the consumer. -/
def outputCount (s : SlidingWindowSorter α) (forceAll : Bool) : ℕ :=
  if forceAll then s.sortedWindow.entries.length else s.calculateOutputCount

def processBatch (std : StandardLibrary α) (s : SlidingWindowSorter α) (forceAll : Bool) :
    SlidingWindowSorter α :=
  if s.newEntries.entries = [] ∧ s.sortedWindow.entries = [] then s
  else
    let s := if s.config.enableSorting then s.sortAndMerge std else s.appendUnsorted std
    let count := s.outputCount forceAll
    let s := if 0 < count then s.outputEntries count else s
    s.maintainWindowSize

/-- What `add_entries` and `add_entry` do with entries that have come in. -/
def processIfDue (std : StandardLibrary α) (s : SlidingWindowSorter α) : SlidingWindowSorter α :=
  if s.shouldProcess then s.processBatch std false else s

def addEntries (std : StandardLibrary α) (s : SlidingWindowSorter α) (entries : List α) :
    SlidingWindowSorter α :=
  if entries = [] then s
  else processIfDue std { s with newEntries := s.newEntries.append std entries }

def addEntry (std : StandardLibrary α) (s : SlidingWindowSorter α) (entry : α) :
    SlidingWindowSorter α :=
  processIfDue std { s with newEntries := s.newEntries.append std [entry] }

def flush (std : StandardLibrary α) (s : SlidingWindowSorter α) : SlidingWindowSorter α :=
  if s.newEntries.entries ≠ [] ∨ s.sortedWindow.entries ≠ [] then s.processBatch std true else s

def reconfigure (std : StandardLibrary α) (s : SlidingWindowSorter α)
    (config : SlidingWindowConfig α) : SlidingWindowSorter α :=
  reserveBuffers std { s.flush std with config := config }

/-- How entries are fed to a sorter. -/
inductive Feed (α : Type*) where
  | addEntry (entry : α)
  | addEntries (entries : List α)

def Feed.entries : Feed α → List α
  | addEntry entry => [entry]
  | addEntries entries => entries

def feed (std : StandardLibrary α) (s : SlidingWindowSorter α) : Feed α → SlidingWindowSorter α
  | .addEntry entry => s.addEntry std entry
  | .addEntries entries => s.addEntries std entries

/-! ### Sorting and merging -/

/-- All that the consumer has been given, in order. -/
def delivered (s : SlidingWindowSorter α) : List α := s.batches.flatten

/-- The pending entries are in the window, which is sorted, and nothing else has changed
but the buffers and the counters of operations. -/
structure Merged (s t : SlidingWindowSorter α) : Prop where
  config : t.config = s.config
  batches : t.batches = s.batches
  totalProcessed : t.totalProcessed = s.totalProcessed
  newEntries : t.newEntries.entries = []
  perm : t.sortedWindow.entries.Perm (s.sortedWindow.entries ++ s.newEntries.entries)
  sorted : Sorted s.config.comparator t.sortedWindow.entries

theorem Merged.delivered {s t : SlidingWindowSorter α} (h : Merged s t) :
    t.delivered = s.delivered := by
  rw [SlidingWindowSorter.delivered, h.batches, SlidingWindowSorter.delivered]

section

variable (std : StandardLibrary α) (s : SlidingWindowSorter α)

/-- Both ways of merging leave the same window. -/
theorem mergeWithWindow_sortedWindow : (s.mergeWithWindow std).sortedWindow.entries =
    merge s.config.comparator s.sortedWindow.entries s.newEntries.entries := by
  unfold mergeWithWindow
  split_ifs
  · simp [performInplaceMerge]
  · simp [performStandardMerge]

theorem mergeWithWindow_rest : (s.mergeWithWindow std).config = s.config ∧
    (s.mergeWithWindow std).batches = s.batches ∧
    (s.mergeWithWindow std).totalProcessed = s.totalProcessed ∧
    (s.mergeWithWindow std).newEntries.entries = [] := by
  unfold mergeWithWindow
  split_ifs
  · exact ⟨rfl, rfl, rfl, rfl⟩
  · exact ⟨rfl, rfl, rfl, rfl⟩

theorem sortNewEntries_perm [StrictWeak s.config.comparator] :
    (s.sortNewEntries std).newEntries.entries.Perm s.newEntries.entries := by
  unfold sortNewEntries
  dsimp only
  split_ifs
  · exact insertionSort_perm _ _
  · exact std.sort_perm _ _

theorem sorted_sortNewEntries [StrictWeak s.config.comparator] :
    Sorted s.config.comparator (s.sortNewEntries std).newEntries.entries := by
  unfold sortNewEntries
  dsimp only
  split_ifs
  · exact sorted_insertionSort _ _
  · exact std.sorted_sort _ _

theorem merged_sortAndMerge [StrictWeak s.config.comparator]
    (h : Sorted s.config.comparator s.sortedWindow.entries) : Merged s (s.sortAndMerge std) := by
  unfold sortAndMerge
  dsimp only
  split_ifs with hnew hwindow
  · exact ⟨rfl, rfl, rfl, hnew, by simp [hnew], h⟩
  · have hempty : s.sortedWindow.entries = [] := hwindow
    refine ⟨rfl, rfl, rfl, rfl, ?_, sorted_sortNewEntries std s⟩
    rw [hempty]
    exact sortNewEntries_perm std s
  · obtain ⟨hconfig, hbatches, htotal, hcleared⟩ := mergeWithWindow_rest std (s.sortNewEntries std)
    have hmerge := mergeWithWindow_sortedWindow std (s.sortNewEntries std)
    refine ⟨hconfig, hbatches, htotal, hcleared, ?_, ?_⟩
    · rw [hmerge]
      exact (merge_perm _ _ _).trans ((sortNewEntries_perm std s).append_left _)
    · rw [hmerge]
      exact Sorted.merge h (sorted_sortNewEntries std s)

end

/-! ### Output -/

/-- The first `n` entries of the window have been given to the consumer. -/
structure Output (s t : SlidingWindowSorter α) (n : ℕ) : Prop where
  config : t.config = s.config
  newEntries : t.newEntries = s.newEntries
  window : t.sortedWindow.entries = s.sortedWindow.entries.drop n
  delivered : t.delivered = s.delivered ++ s.sortedWindow.entries.take n

theorem output_outputEntries (s : SlidingWindowSorter α) (count : ℕ) :
    Output s (s.outputEntries count) count := by
  unfold outputEntries
  split_ifs with h
  · rcases h with rfl | hempty
    · exact ⟨rfl, rfl, rfl, by simp⟩
    · exact ⟨rfl, rfl, by simp [hempty], by simp [hempty]⟩
  · have hwindow : s.sortedWindow.entries.drop (min count s.sortedWindow.entries.length) =
        s.sortedWindow.entries.drop count := by
      rcases Nat.le_total count s.sortedWindow.entries.length with hle | hle
      · rw [Nat.min_eq_left hle]
      · rw [Nat.min_eq_right hle, List.drop_length, List.drop_eq_nil_of_le hle]
    have houtput : s.sortedWindow.entries.take (min count s.sortedWindow.entries.length) =
        s.sortedWindow.entries.take count := List.take_eq_take_min.symm
    exact ⟨rfl, rfl, hwindow, by simp [SlidingWindowSorter.delivered, houtput]⟩

theorem maintainWindowSize_of_le {s : SlidingWindowSorter α}
    (h : s.sortedWindow.entries.length ≤ s.config.windowSize) : s.maintainWindowSize = s :=
  if_neg (Nat.not_lt.mpr h)

/-- What is left is no larger than the window has to be. -/
theorem length_sub_outputCount_le (s : SlidingWindowSorter α) (forceAll : Bool) :
    s.sortedWindow.entries.length - s.outputCount forceAll ≤ s.config.windowSize := by
  unfold outputCount calculateOutputCount
  split_ifs <;> omega

/-- Unless all is given away, what is left is large enough. -/
theorem le_length_sub_outputCount {s : SlidingWindowSorter α}
    (h : s.outputCount false ≠ 0) (hbatch : s.config.batchSize ≤ s.config.windowSize) :
    s.config.windowSize - s.config.batchSize ≤
      s.sortedWindow.entries.length - s.outputCount false := by
  simp only [outputCount, calculateOutputCount, Bool.false_eq_true, if_false] at h ⊢
  split_ifs at h ⊢ <;> omega

/-- `process_batch` sorts and merges, gives entries away and discards none. -/
theorem processBatch_spec (std : StandardLibrary α) (s : SlidingWindowSorter α)
    [StrictWeak s.config.comparator] (hsort : s.config.enableSorting = true)
    (hwindow : Sorted s.config.comparator s.sortedWindow.entries) (forceAll : Bool) :
    ∃ t, Merged s t ∧ Output t (s.processBatch std forceAll) (t.outputCount forceAll) := by
  by_cases hempty : s.newEntries.entries = [] ∧ s.sortedWindow.entries = []
  · rw [processBatch, if_pos hempty]
    refine ⟨s, ⟨rfl, rfl, rfl, hempty.1, by simp [hempty.1], hwindow⟩, rfl, rfl, ?_, ?_⟩
    · simp [hempty.2]
    · simp [hempty.2]
  · refine ⟨s.sortAndMerge std, merged_sortAndMerge std s hwindow, ?_⟩
    simp only [processBatch, if_neg hempty, hsort, if_true]
    have houtput : Output (s.sortAndMerge std)
        (if 0 < (s.sortAndMerge std).outputCount forceAll then
          (s.sortAndMerge std).outputEntries ((s.sortAndMerge std).outputCount forceAll)
        else s.sortAndMerge std) ((s.sortAndMerge std).outputCount forceAll) := by
      split_ifs with hcount
      · exact output_outputEntries _ _
      · have hzero : (s.sortAndMerge std).outputCount forceAll = 0 := by omega
        rw [hzero]
        exact ⟨rfl, rfl, rfl, by simp⟩
    have hsize := length_sub_outputCount_le (s.sortAndMerge std) forceAll
    rw [← List.length_drop, ← houtput.window, ← houtput.config] at hsize
    rwa [maintainWindowSize_of_le hsize]

/-! ### Nearly sorted streams -/

/-- Of what has come in, `settled` is delivered or in the window. What is delivered is
sorted and may stand before all that is in the window. -/
structure Ordered (c : SlidingWindowConfig α) (s : SlidingWindowSorter α) (settled : List α) :
    Prop where
  config : s.config = c
  window : Sorted c.comparator s.sortedWindow.entries
  delivered : Sorted c.comparator s.delivered
  before : ∀ a ∈ s.delivered, ∀ b ∈ s.sortedWindow.entries, notAfter c.comparator a b = true
  perm : (s.delivered ++ s.sortedWindow.entries).Perm settled

/-- Before the first delivery, or with enough entries in the window. -/
def Enough (c : SlidingWindowConfig α) (s : SlidingWindowSorter α) : Prop :=
  s.delivered = [] ∨ c.windowSize - c.batchSize ≤ s.sortedWindow.entries.length

section

variable (std : StandardLibrary α) {c : SlidingWindowConfig α} {s : SlidingWindowSorter α}
  {settled came later : List α}

/-- `came` is what has come in so far. -/
structure Restores (c : SlidingWindowConfig α) (s : SlidingWindowSorter α) (came : List α) :
    Prop where
  ordered : ∃ settled, Ordered c s settled ∧ came = settled ++ s.newEntries.entries
  enough : Enough c s

theorem restores_make : Restores c (make std c) [] := by
  have hwindow : (make std c).sortedWindow.entries = [] := by
    simp [make, reserveBuffers, Buffer.empty]
  have hnew : (make std c).newEntries.entries = [] := by simp [make, reserveBuffers, Buffer.empty]
  have hdelivered : (make std c).delivered = [] := rfl
  refine ⟨⟨[], ⟨rfl, ?_, ?_, ?_, ?_⟩, ?_⟩, .inl hdelivered⟩
  · rw [hwindow]
    exact List.Pairwise.nil
  · rw [hdelivered]
    exact List.Pairwise.nil
  · simp [hdelivered]
  · simp [hdelivered, hwindow]
  · rw [hnew, List.append_nil]

theorem Restores.append (h : Restores c s came) (entries : List α) :
    Restores c { s with newEntries := s.newEntries.append std entries } (came ++ entries) := by
  obtain ⟨⟨settled, hordered, rfl⟩, henough⟩ := h
  refine ⟨⟨settled, ⟨hordered.config, hordered.window, hordered.delivered, hordered.before,
    hordered.perm⟩, ?_⟩, henough⟩
  rw [Buffer.entries_append, List.append_assoc]

variable [StrictWeak c.comparator]

/-- If the pending entries may follow what has been delivered, so may those that are
delivered next. -/
theorem Ordered.processBatch (h : Ordered c s settled) (hsort : c.enableSorting = true)
    (hpending : ∀ a ∈ s.delivered, ∀ b ∈ s.newEntries.entries, notAfter c.comparator a b = true)
    (forceAll : Bool) :
    Ordered c (s.processBatch std forceAll) (settled ++ s.newEntries.entries) := by
  obtain rfl := h.config
  obtain ⟨t, hmerged, houtput⟩ := processBatch_spec std s hsort h.window forceAll
  have hdelivered : t.delivered = s.delivered := hmerged.delivered
  -- what has been delivered may stand before the whole merged window
  have hbefore : ∀ a ∈ s.delivered, ∀ b ∈ t.sortedWindow.entries,
      notAfter s.config.comparator a b = true := by
    intro a ha b hb
    rcases List.mem_append.mp (hmerged.perm.mem_iff.mp hb) with hb | hb
    · exact h.before a ha b hb
    · exact hpending a ha b hb
  have hsplit : ∀ a ∈ t.sortedWindow.entries.take (t.outputCount forceAll),
      ∀ b ∈ t.sortedWindow.entries.drop (t.outputCount forceAll),
        notAfter s.config.comparator a b = true := by
    have hsorted := hmerged.sorted
    rw [← List.take_append_drop (t.outputCount forceAll) t.sortedWindow.entries] at hsorted
    exact (List.pairwise_append.mp hsorted).2.2
  refine ⟨houtput.config.trans hmerged.config, ?_, ?_, ?_, ?_⟩
  · rw [houtput.window]
    exact hmerged.sorted.sublist (List.drop_sublist _ _)
  · rw [houtput.delivered, hdelivered]
    exact List.pairwise_append.mpr ⟨h.delivered, hmerged.sorted.sublist (List.take_sublist _ _),
      fun a ha b hb => hbefore a ha b (List.mem_of_mem_take hb)⟩
  · rw [houtput.delivered, houtput.window, hdelivered]
    intro a ha b hb
    rcases List.mem_append.mp ha with ha | ha
    · exact hbefore a ha b (List.mem_of_mem_drop hb)
    · exact hsplit a ha b hb
  · rw [houtput.delivered, houtput.window, hdelivered, List.append_assoc, List.take_append_drop]
    refine (hmerged.perm.append_left s.delivered).trans ?_
    rw [← List.append_assoc]
    exact h.perm.append_right _

theorem Enough.processBatch (h : Enough c s) (hordered : Ordered c s settled)
    (hsort : c.enableSorting = true) (hbatch : c.batchSize ≤ c.windowSize) :
    Enough c (s.processBatch std false) := by
  obtain rfl := hordered.config
  obtain ⟨t, hmerged, houtput⟩ := processBatch_spec std s hsort hordered.window false
  have hdelivered : t.delivered = s.delivered := hmerged.delivered
  by_cases hcount : t.outputCount false = 0
  · have hkeep := houtput.delivered
    rw [hcount, List.take_zero, List.append_nil, hdelivered] at hkeep
    have hwindow := houtput.window
    rw [hcount, List.drop_zero] at hwindow
    rcases h with hnone | henough
    · exact .inl (hkeep.trans hnone)
    · refine .inr ?_
      rw [hwindow, hmerged.perm.length_eq, List.length_append]
      exact Nat.le_trans henough (Nat.le_add_right _ _)
  · refine .inr ?_
    have hleft := le_length_sub_outputCount hcount (by rw [hmerged.config]; exact hbatch)
    rwa [houtput.window, List.length_drop, ← hmerged.config]

theorem newEntries_processBatch (h : Ordered c s settled) (hsort : c.enableSorting = true)
    {forceAll : Bool} : (s.processBatch std forceAll).newEntries.entries = [] := by
  obtain rfl := h.config
  obtain ⟨t, hmerged, houtput⟩ := processBatch_spec std s hsort h.window forceAll
  rw [houtput.newEntries, hmerged.newEntries]

theorem window_processBatch (h : Ordered c s settled) (hsort : c.enableSorting = true) :
    (s.processBatch std true).sortedWindow.entries = [] := by
  obtain rfl := h.config
  obtain ⟨t, hmerged, houtput⟩ := processBatch_spec std s hsort h.window true
  rw [houtput.window]
  exact List.drop_length

/-- From a nearly sorted stream nothing comes that has to stand before a delivered entry. -/
theorem Ordered.before_pending (h : Ordered c s settled) (henough : Enough c s)
    {later : List α}
    (hnear : NearlySorted c.comparator (c.windowSize - c.batchSize) (settled ++ later)) :
    ∀ a ∈ s.delivered, ∀ b ∈ later, notAfter c.comparator a b = true := by
  rcases henough with hnone | henough
  · simp [hnone]
  · exact hnear.notAfter_of_perm h.perm h.before henough

theorem Restores.processIfDue (h : Restores c s came) (hsort : c.enableSorting = true)
    (hbatch : c.batchSize ≤ c.windowSize)
    (hnear : NearlySorted c.comparator (c.windowSize - c.batchSize) (came ++ later)) :
    Restores c (s.processIfDue std) came := by
  unfold SlidingWindowSorter.processIfDue
  split_ifs
  · obtain ⟨⟨settled, hordered, rfl⟩, henough⟩ := h
    rw [List.append_assoc] at hnear
    have hpending := hordered.before_pending henough hnear
    refine ⟨⟨_, hordered.processBatch std hsort
      (fun a ha b hb => hpending a ha b (List.mem_append_left _ hb)) false, ?_⟩,
      henough.processBatch std hordered hsort hbatch⟩
    rw [newEntries_processBatch std hordered hsort, List.append_nil]
  · exact h

/-- One call of `add_entry` or `add_entries`. -/
theorem Restores.feed (h : Restores c s came) (hsort : c.enableSorting = true)
    (hbatch : c.batchSize ≤ c.windowSize) (f : Feed α)
    (hnear : NearlySorted c.comparator (c.windowSize - c.batchSize)
      (came ++ f.entries ++ later)) : Restores c (s.feed std f) (came ++ f.entries) := by
  cases f with
  | addEntry entry => exact (h.append std [entry]).processIfDue std hsort hbatch hnear
  | addEntries entries =>
    by_cases hempty : entries = []
    · subst hempty
      simpa [SlidingWindowSorter.feed, addEntries, Feed.entries] using h
    · rw [SlidingWindowSorter.feed, addEntries, if_neg hempty]
      exact (h.append std entries).processIfDue std hsort hbatch hnear

theorem Restores.feeds (h : Restores c s came) (hsort : c.enableSorting = true)
    (hbatch : c.batchSize ≤ c.windowSize) (feeds : List (Feed α))
    (hnear : NearlySorted c.comparator (c.windowSize - c.batchSize)
      (came ++ feeds.flatMap Feed.entries)) :
    Restores c (feeds.foldl (SlidingWindowSorter.feed std) s)
      (came ++ feeds.flatMap Feed.entries) := by
  induction feeds generalizing s came with
  | nil => simpa using h
  | cons f feeds ih =>
    rw [List.flatMap_cons, ← List.append_assoc] at hnear ⊢
    exact ih (h.feed std hsort hbatch f hnear) hnear

theorem Restores.flush (h : Restores c s came) (hsort : c.enableSorting = true)
    (hnear : NearlySorted c.comparator (c.windowSize - c.batchSize) came) :
    Sorted c.comparator (s.flush std).delivered ∧ (s.flush std).delivered.Perm came := by
  obtain ⟨⟨settled, hordered, rfl⟩, henough⟩ := h
  unfold SlidingWindowSorter.flush
  split_ifs with hleft
  · have hpending := hordered.before_pending henough hnear
    have hflushed := hordered.processBatch std hsort hpending true
    have hperm := hflushed.perm
    rw [window_processBatch std hordered hsort, List.append_nil] at hperm
    exact ⟨hflushed.delivered, hperm⟩
  · rw [not_or, not_not, not_not] at hleft
    have hperm := hordered.perm
    rw [hleft.2, List.append_nil] at hperm
    rw [hleft.1, List.append_nil]
    exact ⟨hordered.delivered, hperm⟩

end

/-- Of a nearly sorted stream, the consumer is given everything in order. -/
theorem sorted_delivered_flush (std : StandardLibrary α) (c : SlidingWindowConfig α)
    [StrictWeak c.comparator] (hsort : c.enableSorting = true)
    (hbatch : c.batchSize ≤ c.windowSize) (feeds : List (Feed α))
    (hnear : NearlySorted c.comparator (c.windowSize - c.batchSize)
      (feeds.flatMap Feed.entries)) :
    Sorted c.comparator ((feeds.foldl (feed std) (make std c)).flush std).delivered ∧
    ((feeds.foldl (feed std) (make std c)).flush std).delivered.Perm
      (feeds.flatMap Feed.entries) :=
  ((restores_make std).feeds std hsort hbatch feeds hnear).flush std hsort hnear

/-- A standard library that sorts stably and at least doubles a capacity when it inserts. -/
def plainLibrary : StandardLibrary ℕ where
  sort less xs := insertionSort less xs
  sort_perm less _ xs := insertionSort_perm less xs
  sorted_sort less _ xs := sorted_insertionSort less xs
  reserved _ n := n
  le_reserved _ _ := le_rfl
  grow c n := max (2 * c) n
  le_grow _ _ := le_max_right _ _
  moved _ := 0

def threeWindow : SlidingWindowConfig ℕ := ⟨3, 1, true, lessOf, true, 0⟩

instance strictWeak_threeWindow : StrictWeak threeWindow.comparator :=
  inferInstanceAs (StrictWeak lessOf)

theorem sorted_delivered_threeWindow :
    Sorted lessOf (([.addEntry 2, .addEntries [3, 1]].foldl (feed plainLibrary)
        (make plainLibrary threeWindow)).flush plainLibrary).delivered ∧
    (([.addEntry 2, .addEntries [3, 1]].foldl (feed plainLibrary)
        (make plainLibrary threeWindow)).flush plainLibrary).delivered.Perm [2, 3, 1] := by
  refine sorted_delivered_flush plainLibrary threeWindow rfl (by decide)
    [.addEntry 2, .addEntries [3, 1]] ?_
  intro i j a b hi hj hij hless
  have hlast : j < 3 := (List.getElem?_eq_some_iff.mp hj).1
  change j - i ≤ 2
  omega

end SlidingWindowSorter

end Demiplane.Algorithms

import Demiplane.Algorithms.SlidingWindowSorter

/-!
Operations on a sorter in any order. `process_batch` gathers the pending entries in the
window, gives entries to the consumer, and then `maintain_window_size` would erase what
is too much: it never finds anything to erase, with any sizes of window and batches.
-/

namespace Demiplane.Algorithms.SlidingWindowSorter

open Sorting

variable {α : Type*}

/-- A configuration that `std::sort` can be called with. -/
structure LawfulConfig (α : Type*) extends SlidingWindowConfig α where
  strictWeak : StrictWeak comparator

/-- `κ` are the configurations that there can be. -/
inductive Operation (α κ : Type*) where
  | addEntry (entry : α)
  | addEntries (entries : List α)
  | flush
  | reconfigure (config : κ)

namespace Operation

variable {κ κ' : Type*}

def entries : Operation α κ → List α
  | addEntry entry => [entry]
  | addEntries entries => entries
  | flush => []
  | reconfigure _ => []

def map (f : κ → κ') : Operation α κ → Operation α κ'
  | addEntry entry => addEntry entry
  | addEntries entries => addEntries entries
  | flush => flush
  | reconfigure config => reconfigure (f config)

end Operation

def perform (std : StandardLibrary α) (s : SlidingWindowSorter α) :
    Operation α (LawfulConfig α) → SlidingWindowSorter α
  | .addEntry entry => s.addEntry std entry
  | .addEntries entries => s.addEntries std entries
  | .flush => s.flush std
  | .reconfigure config => s.reconfigure std config.toSlidingWindowConfig

/-! ### The parts of `process_batch` -/

/-- The pending entries go into the window. -/
def gather (std : StandardLibrary α) (s : SlidingWindowSorter α) : SlidingWindowSorter α :=
  if s.config.enableSorting then s.sortAndMerge std else s.appendUnsorted std

/-- Entries go to the consumer. -/
def emit (s : SlidingWindowSorter α) (forceAll : Bool) : SlidingWindowSorter α :=
  if 0 < s.outputCount forceAll then s.outputEntries (s.outputCount forceAll) else s

theorem processBatch_eq (std : StandardLibrary α) (s : SlidingWindowSorter α) (forceAll : Bool) :
    s.processBatch std forceAll =
      if s.newEntries.entries = [] ∧ s.sortedWindow.entries = [] then s
      else ((s.gather std).emit forceAll).maintainWindowSize := rfl

/-- The calls of the consumer for a batch: none if it is empty. -/
def calls (batch : List α) : List (List α) := if batch = [] then [] else [batch]

@[simp] theorem flatten_calls (batch : List α) : (calls batch).flatten = batch := by
  unfold calls
  split_ifs with h
  · simp [h]
  · simp

/-- The pending entries are in the window, and nothing else has changed but the buffers
and the counters of operations. -/
structure Gathered (s t : SlidingWindowSorter α) : Prop where
  config : t.config = s.config
  batches : t.batches = s.batches
  totalProcessed : t.totalProcessed = s.totalProcessed
  newEntries : t.newEntries.entries = []
  perm : t.sortedWindow.entries.Perm (s.sortedWindow.entries ++ s.newEntries.entries)
  sorted : s.config.enableSorting = true → Sorted s.config.comparator t.sortedWindow.entries

/-- The first `n` entries of the window have been given to the consumer in one batch. -/
structure Emitted (s t : SlidingWindowSorter α) (n : ℕ) : Prop where
  config : t.config = s.config
  newEntries : t.newEntries = s.newEntries
  window : t.sortedWindow.entries = s.sortedWindow.entries.drop n
  batches : t.batches = s.batches ++ calls (s.sortedWindow.entries.take n)
  totalProcessed : t.totalProcessed = s.totalProcessed + (s.sortedWindow.entries.take n).length

theorem gathered_gather (std : StandardLibrary α) (s : SlidingWindowSorter α)
    [StrictWeak s.config.comparator]
    (h : s.config.enableSorting = true → Sorted s.config.comparator s.sortedWindow.entries) :
    Gathered s (s.gather std) := by
  unfold gather
  split_ifs with hsort
  · have hmerged := merged_sortAndMerge std s (h hsort)
    exact ⟨hmerged.config, hmerged.batches, hmerged.totalProcessed, hmerged.newEntries,
      hmerged.perm, fun _ => hmerged.sorted⟩
  · exact ⟨rfl, rfl, rfl, rfl, List.Perm.refl _, fun hsort' => absurd hsort' hsort⟩

theorem emitted_zero (s : SlidingWindowSorter α) : Emitted s s 0 :=
  ⟨rfl, rfl, rfl, by simp [calls], by simp⟩

theorem emitted_outputEntries (s : SlidingWindowSorter α) (count : ℕ) :
    Emitted s (s.outputEntries count) count := by
  have houtput := output_outputEntries s count
  refine ⟨houtput.config, houtput.newEntries, houtput.window, ?_, ?_⟩
  · unfold outputEntries
    split_ifs with h
    · rcases h with rfl | hempty
      · simp [calls]
      · simp [calls, hempty]
    · have hne : s.sortedWindow.entries.take count ≠ [] := by
        simpa [List.take_eq_nil_iff] using h
      simp only [← List.take_eq_take_min, calls, if_neg hne]
  · unfold outputEntries
    split_ifs with h
    · rcases h with rfl | hempty
      · simp
      · simp [hempty]
    · simp only [← List.take_eq_take_min]

theorem emitted_emit (s : SlidingWindowSorter α) (forceAll : Bool) :
    Emitted s (s.emit forceAll) (s.outputCount forceAll) := by
  unfold emit
  split_ifs with hcount
  · exact emitted_outputEntries s _
  · have hzero : s.outputCount forceAll = 0 := by omega
    rw [hzero]
    exact emitted_zero s

/-- There is never too much in the window. -/
theorem maintainWindowSize_emit (s : SlidingWindowSorter α) (forceAll : Bool) :
    (s.emit forceAll).maintainWindowSize = s.emit forceAll := by
  have hemitted := emitted_emit s forceAll
  refine maintainWindowSize_of_le ?_
  rw [hemitted.window, hemitted.config, List.length_drop]
  exact length_sub_outputCount_le s forceAll

/-! ### Nothing is lost -/

/-- `added` is what has been added so far. -/
structure Conserved (s : SlidingWindowSorter α) (added : List α) : Prop where
  strictWeak : StrictWeak s.config.comparator
  sorted : s.config.enableSorting = true → Sorted s.config.comparator s.sortedWindow.entries
  entries : (s.delivered ++ (s.sortedWindow.entries ++ s.newEntries.entries)).Perm added
  totalProcessed : s.totalProcessed = s.delivered.length

/-- Nothing is left inside. -/
def Drained (s : SlidingWindowSorter α) : Prop :=
  s.sortedWindow.entries = [] ∧ s.newEntries.entries = []

section

variable (std : StandardLibrary α) {s : SlidingWindowSorter α} {added : List α}

theorem conserved_make (c : LawfulConfig α) :
    Conserved (make std c.toSlidingWindowConfig) [] where
  strictWeak := c.strictWeak
  sorted _ := by
    simp only [make, reserveBuffers, Buffer.entries_reserve]
    exact List.Pairwise.nil
  entries := by simp [make, reserveBuffers, Buffer.empty, delivered]
  totalProcessed := rfl

theorem Emitted.delivered {s t : SlidingWindowSorter α} {n : ℕ} (h : Emitted s t n) :
    t.delivered = s.delivered ++ s.sortedWindow.entries.take n := by
  rw [SlidingWindowSorter.delivered, h.batches, List.flatten_append, flatten_calls,
    SlidingWindowSorter.delivered]

theorem Conserved.processBatch (h : s.Conserved added) (forceAll : Bool) :
    (s.processBatch std forceAll).Conserved added := by
  have hweak := h.strictWeak
  rw [processBatch_eq]
  split_ifs with hempty
  · exact h
  · rw [maintainWindowSize_emit]
    have hgathered := gathered_gather std s h.sorted
    have hemitted := emitted_emit (s.gather std) forceAll
    have hconfig := hemitted.config.trans hgathered.config
    have hdelivered : (s.gather std).delivered = s.delivered := by
      rw [delivered, hgathered.batches, delivered]
    refine ⟨by rwa [hconfig], fun hsort => ?_, ?_, ?_⟩
    · rw [hconfig] at hsort ⊢
      rw [hemitted.window]
      exact (hgathered.sorted hsort).sublist (List.drop_sublist _ _)
    · -- what has been taken from the front of the window has been delivered
      rw [hemitted.delivered, hemitted.window, hemitted.newEntries, hgathered.newEntries,
        List.append_nil, List.append_assoc, List.take_append_drop, hdelivered]
      exact (hgathered.perm.append_left _).trans h.entries
    · rw [hemitted.totalProcessed, hemitted.delivered, List.length_append,
        hgathered.totalProcessed, h.totalProcessed, hdelivered]

theorem Conserved.push (h : s.Conserved added) (entries : List α) :
    Conserved { s with newEntries := s.newEntries.append std entries } (added ++ entries) where
  strictWeak := h.strictWeak
  sorted := h.sorted
  entries := by
    have hall := h.entries.append_right entries
    rwa [List.append_assoc, List.append_assoc] at hall
  totalProcessed := h.totalProcessed

theorem Conserved.processIfDue (h : s.Conserved added) : (s.processIfDue std).Conserved added := by
  unfold SlidingWindowSorter.processIfDue
  split_ifs
  · exact h.processBatch std false
  · exact h

theorem Conserved.flush (h : s.Conserved added) : (s.flush std).Conserved added := by
  unfold SlidingWindowSorter.flush
  split_ifs
  · exact h.processBatch std true
  · exact h

theorem Conserved.drained_flush (h : s.Conserved added) : (s.flush std).Drained := by
  have hweak := h.strictWeak
  unfold SlidingWindowSorter.flush
  split_ifs with hleft
  · have hne : ¬(s.newEntries.entries = [] ∧ s.sortedWindow.entries = []) := by tauto
    rw [processBatch_eq, if_neg hne, maintainWindowSize_emit]
    have hemitted := emitted_emit (s.gather std) true
    refine ⟨?_, ?_⟩
    · rw [hemitted.window]
      exact List.drop_length
    · rw [hemitted.newEntries]
      exact (gathered_gather std s h.sorted).newEntries
  · rw [not_or, not_not, not_not] at hleft
    exact ⟨hleft.2, hleft.1⟩

/-- The window is empty when the comparator changes. -/
theorem Conserved.reconfigure (h : s.Conserved added) (c : LawfulConfig α) :
    (s.reconfigure std c.toSlidingWindowConfig).Conserved added where
  strictWeak := c.strictWeak
  sorted _ := by
    simp only [SlidingWindowSorter.reconfigure, reserveBuffers, Buffer.entries_reserve,
      (h.drained_flush std).1]
    exact List.Pairwise.nil
  entries := by
    simp only [SlidingWindowSorter.reconfigure, reserveBuffers, Buffer.entries_reserve]
    exact (h.flush std).entries
  totalProcessed := (h.flush std).totalProcessed

theorem Conserved.perform (h : s.Conserved added) (op : Operation α (LawfulConfig α)) :
    (s.perform std op).Conserved (added ++ op.entries) := by
  cases op with
  | addEntry entry => exact (h.push std [entry]).processIfDue std
  | addEntries entries =>
    by_cases hempty : entries = []
    · simpa [SlidingWindowSorter.perform, SlidingWindowSorter.addEntries, Operation.entries,
        hempty] using h
    · rw [SlidingWindowSorter.perform, SlidingWindowSorter.addEntries, if_neg hempty]
      exact (h.push std entries).processIfDue std
  | flush =>
    rw [Operation.entries, List.append_nil]
    exact h.flush std
  | reconfigure c =>
    rw [Operation.entries, List.append_nil]
    exact h.reconfigure std c

theorem Conserved.operations (h : s.Conserved added)
    (ops : List (Operation α (LawfulConfig α))) :
    (ops.foldl (SlidingWindowSorter.perform std) s).Conserved
      (added ++ ops.flatMap Operation.entries) := by
  induction ops generalizing s added with
  | nil => simpa using h
  | cons op ops ih =>
    rw [List.flatMap_cons, ← List.append_assoc]
    exact ih (h.perform std op)

end

/-- After any operations, what was added is with the consumer or inside, the counter tells
how much is with the consumer, and a `flush` would leave nothing inside. No state whatever
makes `maintain_window_size` erase an entry. -/
theorem nothing_lost (std : StandardLibrary α) (c : LawfulConfig α)
    (ops : List (Operation α (LawfulConfig α))) :
    let s := ops.foldl (perform std) (make std c.toSlidingWindowConfig)
    (s.delivered ++ (s.sortedWindow.entries ++ s.newEntries.entries)).Perm
        (ops.flatMap Operation.entries) ∧
      s.totalProcessed = s.delivered.length ∧ (s.flush std).Drained ∧
      ∀ (t : SlidingWindowSorter α) (forceAll : Bool),
        ((t.gather std).emit forceAll).maintainWindowSize = (t.gather std).emit forceAll := by
  have hconserved := (conserved_make std c).operations std ops
  exact ⟨hconserved.entries, hconserved.totalProcessed, hconserved.drained_flush std,
    fun t forceAll => maintainWindowSize_emit _ forceAll⟩

def lawfulThreeWindow : LawfulConfig ℕ := ⟨threeWindow, strictWeak_threeWindow⟩

theorem nothing_lost_threeWindow :
    let s := [.addEntries [2, 3, 1, 4], .flush, .reconfigure lawfulThreeWindow, .addEntry 0].foldl
      (perform plainLibrary) (make plainLibrary threeWindow)
    (s.delivered ++ (s.sortedWindow.entries ++ s.newEntries.entries)).Perm [2, 3, 1, 4, 0] ∧
      s.totalProcessed = s.delivered.length ∧ (s.flush plainLibrary).Drained :=
  let h := nothing_lost plainLibrary lawfulThreeWindow
    [.addEntries [2, 3, 1, 4], .flush, .reconfigure lawfulThreeWindow, .addEntry 0]
  ⟨h.1, h.2.1, h.2.2.1⟩

end Demiplane.Algorithms.SlidingWindowSorter

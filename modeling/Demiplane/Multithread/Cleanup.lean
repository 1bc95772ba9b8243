import Mathlib.Logic.Relation
import Demiplane.Multithread.ThreadPool

/-!
`cleanup_invalid_workers` as one call on a list of workers whose flags stay as they are. The
workers to remove are counted first, in eight bits, and the list is left alone if that count
is zero. The steps that the pool takes for the call come to the same list.
-/

namespace Demiplane.Multithread

/-- `std::count_if` gives a number of full width, which is added to the eight bits of
`needs_cleanup`. -/
def needsCleanup (workers : List SafeThread) : UInt8 :=
  0 + UInt8.ofNat (workers.countP fun t => !t.valid)

def cleanupInvalidWorkers (workers : List SafeThread) : List SafeThread :=
  if needsCleanup workers = 0 then workers else workers.filter (·.valid)

theorem needsCleanup_eq_zero_iff (workers : List SafeThread) :
    needsCleanup workers = 0 ↔ 256 ∣ workers.countP fun t => !t.valid := by
  rw [needsCleanup, UInt8.zero_add, ← UInt8.toNat_inj, UInt8.toNat_ofNat', Nat.dvd_iff_mod_eq_zero]
  rfl

theorem filter_valid_eq_self_iff (workers : List SafeThread) :
    workers.filter (·.valid) = workers ↔ (workers.countP fun t => !t.valid) = 0 := by
  simp [List.filter_eq_self, List.countP_eq_zero]

/-- A multiple of 256 workers that have left stays in the list, unless it is none at all. -/
theorem cleanupInvalidWorkers_eq_filter_iff (workers : List SafeThread) :
    cleanupInvalidWorkers workers = workers.filter (·.valid) ↔
      (256 ∣ (workers.countP fun t => !t.valid) → (workers.countP fun t => !t.valid) = 0) := by
  unfold cleanupInvalidWorkers
  split_ifs with hzero
  · have hdvd := (needsCleanup_eq_zero_iff workers).1 hzero
    rw [eq_comm, filter_valid_eq_self_iff]
    exact ⟨fun h _ => h, fun h => h hdvd⟩
  · have hdvd := mt (needsCleanup_eq_zero_iff workers).2 hzero
    exact ⟨fun _ h => absurd h hdvd, fun _ => rfl⟩

/-- None of 256 workers that have left is removed. -/
theorem cleanupInvalidWorkers_of_256_left :
    cleanupInvalidWorkers (List.replicate 256 ⟨false, .finished⟩) ≠
      (List.replicate 256 ⟨false, .finished⟩).filter (·.valid) := by
  decide +kernel

namespace ThreadPool

/-! ### The steps of the call -/

/-- A step of the thread that cleans up, while the other threads take none. -/
def Cleans (s t : ThreadPool) : Prop := s.cleanerStep s.cleaner = some t

/-- The list of workers is in nobody else's hands. -/
structure ListFree (s : ThreadPool) : Prop where
  notShared : s.enqueueShares = false
  notExcluded : (s.enqueueExcludes || s.shutdownExcludes) = false

/-- The pool in the middle of a call. -/
def during (s : ThreadPool) (c : Cleanup) (workers : List ℕ) : ThreadPool :=
  { s with cleaner := .cleanup c, workers := workers }

theorem cleans_during {s : ThreadPool} (hfree : s.ListFree) {c c' : Cleanup} {ws ws' : List ℕ}
    (hne : c ≠ .done)
    (h : (s.during c ws).cleanupStep false false c = some (c', ws')) :
    (s.during c ws).Cleans (s.during c' ws') := by
  have hstep : (s.during c ws).cleanerStep (.cleanup c) =
      ((s.during c ws).cleanupStep s.enqueueShares
        (s.enqueueExcludes || s.shutdownExcludes) c).map fun r =>
          { s.during c ws with cleaner := .cleanup r.1, workers := r.2 } := by
    cases c with
    | done => exact absurd rfl hne
    | start => rfl
    | counting rest n => rfl
    | counted => rfl
    | erasing rest => rfl
  unfold Cleans
  rw [show (s.during c ws).cleaner = .cleanup c from rfl, hstep, hfree.notShared,
    hfree.notExcluded, h]
  rfl

theorem counted_cons (s : ThreadPool) (w : ℕ) (rest : List ℕ) (n : UInt8) :
    (if (s.thread w).valid then n else n + 1) +
        UInt8.ofNat ((rest.map s.thread).countP fun t => !t.valid) =
      n + UInt8.ofNat (((w :: rest).map s.thread).countP fun t => !t.valid) := by
  rw [List.map_cons, List.countP_cons]
  by_cases hvalid : (s.thread w).valid = true
  · simp [hvalid]
  · simp only [hvalid, Bool.not_false, if_true, Bool.false_eq_true, if_false]
    rw [UInt8.ofNat_add, UInt8.add_assoc, UInt8.add_comm 1]
    rfl

/-- The count goes over the list and adds what it finds to the eight bits that it has. -/
theorem counting_reaches {s : ThreadPool} (hfree : s.ListFree) (ws rest : List ℕ) (n : UInt8) :
    Relation.ReflTransGen Cleans (s.during (.counting rest n) ws)
      (s.during (.counting []
        (n + UInt8.ofNat ((rest.map s.thread).countP fun t => !t.valid))) ws) := by
  induction rest generalizing n with
  | nil =>
    rw [List.map_nil, List.countP_nil, show n + UInt8.ofNat 0 = n from UInt8.add_zero n]
  | cons w rest ih =>
    rw [← counted_cons]
    exact (ih _).head (cleans_during hfree (by simp) rfl)

/-- The removal keeps what it has passed, all of it valid. -/
theorem erasing_reaches {s : ThreadPool} (hfree : s.ListFree) (kept rest : List ℕ)
    (hkept : ∀ w ∈ kept, (s.thread w).valid = true) :
    Relation.ReflTransGen Cleans (s.during (.erasing rest) (kept ++ rest))
      (s.during (.erasing []) (kept ++ rest.filter fun w => (s.thread w).valid)) := by
  induction rest generalizing kept with
  | nil => rfl
  | cons w rest ih =>
    by_cases hvalid : (s.thread w).valid = true
    · have hstep : (s.during (.erasing (w :: rest)) (kept ++ w :: rest)).Cleans
          (s.during (.erasing rest) (kept ++ w :: rest)) :=
        cleans_during hfree (by simp) (by simp [cleanupStep, during, hvalid])
      have hkept' : ∀ u ∈ kept ++ [w], (s.thread u).valid = true := by
        simpa [or_imp, forall_and, hvalid] using hkept
      simpa [hvalid] using (ih (kept ++ [w]) hkept').head (by simpa using hstep)
    · have hnot : w ∉ kept := fun hmem => hvalid (hkept w hmem)
      have hstep : (s.during (.erasing (w :: rest)) (kept ++ w :: rest)).Cleans
          (s.during (.erasing rest) (kept ++ rest)) :=
        cleans_during hfree (by simp)
          (by simp [cleanupStep, during, hvalid, List.erase_append_right _ hnot])
      simpa [hvalid] using (ih kept hkept).head hstep

/-- The steps of a call that nobody interferes with end, with the list of the call. -/
theorem cleanup_reaches {s : ThreadPool} (hfree : s.ListFree)
    (hstart : s.cleaner = .cleanup .start) :
    ∃ t, Relation.ReflTransGen Cleans s t ∧ t.cleaner = .cleanup .done ∧
      t.thread = s.thread ∧
      t.workers.map t.thread = cleanupInvalidWorkers (s.workers.map s.thread) := by
  have hs : s = s.during .start s.workers := by
    unfold during
    rw [← hstart]
  have hcount : Relation.ReflTransGen Cleans s
      (s.during (.counting [] (needsCleanup (s.workers.map s.thread))) s.workers) := by
    rw [hs]
    exact (counting_reaches hfree s.workers s.workers 0).head
      (cleans_during hfree (by simp) rfl)
  by_cases hzero : needsCleanup (s.workers.map s.thread) = 0
  · refine ⟨s.during .done s.workers, hcount.tail ?_, rfl, rfl, ?_⟩
    · exact cleans_during hfree (by simp) (by simp [cleanupStep, during, hzero])
    · simp [cleanupInvalidWorkers, hzero, during]
  · have hcounted : (s.during (.counting [] (needsCleanup (s.workers.map s.thread)))
        s.workers).Cleans (s.during .counted s.workers) :=
      cleans_during hfree (by simp) (by simp [cleanupStep, during, hzero])
    have herase : (s.during .counted s.workers).Cleans
        (s.during (.erasing s.workers) s.workers) :=
      cleans_during hfree (by simp) rfl
    have herased := erasing_reaches hfree [] s.workers (by simp)
    refine ⟨s.during .done (s.workers.filter fun w => (s.thread w).valid), ?_, rfl, rfl, ?_⟩
    · exact (((hcount.tail hcounted).tail herase).trans herased).tail
        (cleans_during hfree (by simp) rfl)
    · simp [cleanupInvalidWorkers, hzero, during, List.filter_map, Function.comp_def]

end ThreadPool

end Demiplane.Multithread

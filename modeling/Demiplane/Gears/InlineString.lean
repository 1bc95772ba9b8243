import Mathlib.Data.List.GetD
import Demiplane.Text.Decimal
import Demiplane.Transition.Run

/-!
`InlineString`: a text in a buffer of fixed capacity that its size delimits, and that a
terminator is to delimit as well. `assign` and `clear` write a terminator; an append does not,
so that what stands behind its end is whatever earlier contents have left there. Which
positions those are is told by the lengths of the texts alone.
-/

namespace Demiplane.Gears

open Text Transition

/-- `data_` has room for a terminator behind `Capacity` bytes. -/
structure InlineString (capacity : ℕ) where
  size : ℕ
  data : Text
  length_data : data.length = capacity + 1
  deriving DecidableEq, Repr

/-- The loops that write a text into the buffer, from a position on. -/
def store (data : Text) (pos : ℕ) : Text → Text
  | [] => data
  | c :: rest => store (data.set pos c) (pos + 1) rest

@[simp]
theorem length_store (data : Text) (pos : ℕ) (sv : Text) :
    (store data pos sv).length = data.length := by
  induction sv generalizing data pos with
  | nil => rfl
  | cons c rest ih => simp [store, ih]

theorem getD_store {data sv : Text} {pos : ℕ} (hroom : pos + sv.length ≤ data.length) (i : ℕ) :
    (store data pos sv).getD i 0 =
      if pos ≤ i ∧ i < pos + sv.length then sv.getD (i - pos) 0 else data.getD i 0 := by
  induction sv generalizing data pos with
  | nil => simp [store]
  | cons c rest ih =>
    rw [List.length_cons] at hroom ⊢
    rw [store, ih (by simp; omega)]
    rcases Nat.lt_trichotomy i pos with hlt | rfl | hgt
    · rw [if_neg (by omega), if_neg (by omega)]
      simp [show pos ≠ i by omega]
    · rw [if_neg (by omega), if_pos (by omega)]
      simp [show i < data.length by omega]
    · have hsub : i - pos = i - (pos + 1) + 1 := by omega
      by_cases hin : i < pos + 1 + rest.length
      · rw [if_pos (by omega), if_pos (by omega), hsub, List.getD_cons_succ]
      · rw [if_neg (by omega), if_neg (by omega)]
        simp [show pos ≠ i by omega]

namespace InlineString

variable {capacity : ℕ}

/-- The default constructor. -/
def empty (capacity : ℕ) : InlineString capacity where
  size := 0
  data := List.replicate (capacity + 1) 0
  length_data := List.length_replicate

/-- `operator+=` of a text: whether it throws, and the string behind it. -/
def appendView (s : InlineString capacity) (sv : Text) :
    Except String Unit × InlineString capacity :=
  if s.size + sv.length > capacity then
    (.error "InlineString: capacity exceeded on string_view append", s)
  else
    (.ok (), ⟨s.size + sv.length, store s.data s.size sv, by simp [s.length_data]⟩)

/-- `operator+=` of a character. -/
def appendChar (s : InlineString capacity) (c : UInt8) :
    Except String Unit × InlineString capacity :=
  if s.size ≥ capacity then
    (.error "InlineString: capacity exceeded on char append", s)
  else
    (.ok (), ⟨s.size + 1, s.data.set s.size c, by simp [s.length_data]⟩)

/-- `assign` at runtime. -/
def assign (s : InlineString capacity) (sv : Text) : InlineString capacity :=
  let n := min sv.length capacity
  ⟨n, (store s.data 0 (sv.take n)).set n 0, by simp [s.length_data]⟩

def clear (s : InlineString capacity) : InlineString capacity :=
  ⟨0, s.data.set 0 0, by simp [s.length_data]⟩

def view (s : InlineString capacity) : Text := s.data.take s.size

/-- The text that a reader of `c_str` sees. -/
def cStr (s : InlineString capacity) : Text := s.data.takeWhile (· ≠ 0)

/-- What is asked of a string after each operation. -/
structure Sound (s : InlineString capacity) : Prop where
  size_le : s.size ≤ capacity
  terminated : s.data[s.size]? = some 0
  cStr_eq_view : s.cStr = s.view
  appendView_throws : ∀ sv e, (s.appendView sv).1 = .error e → (s.appendView sv).2.view = s.view
  appendChar_throws : ∀ c e, (s.appendChar c).1 = .error e → (s.appendChar c).2.view = s.view

theorem appendView_of_throws {s : InlineString capacity} {sv : Text} {e : String}
    (h : (s.appendView sv).1 = .error e) : (s.appendView sv).2 = s := by
  unfold appendView at h ⊢
  split_ifs at h ⊢
  rfl

theorem appendChar_of_throws {s : InlineString capacity} {c : UInt8} {e : String}
    (h : (s.appendChar c).1 = .error e) : (s.appendChar c).2 = s := by
  unfold appendChar at h ⊢
  split_ifs at h ⊢
  rfl

/-- What was in the buffer does not show after an `assign`. -/
theorem view_assign (s : InlineString capacity) (sv : Text) :
    (s.assign sv).view = sv.take capacity := by
  have hlen : (sv.take (min sv.length capacity)).length = min sv.length capacity := by simp
  have hroom : 0 + (sv.take (min sv.length capacity)).length ≤ s.data.length := by
    rw [hlen, s.length_data]
    omega
  refine List.ext_getElem (by simp [view, assign, s.length_data]; omega) fun i hi hi' => ?_
  have hlt : i < min sv.length capacity := by simpa [Nat.min_comm] using hi'
  have hget := getD_store hroom i
  rw [if_pos ⟨Nat.zero_le i, by omega⟩, Nat.sub_zero,
    List.getD_eq_getElem _ _ (by rw [length_store, s.length_data]; omega),
    List.getD_eq_getElem _ _ (by omega)] at hget
  simpa [view, assign, hlt.ne'] using hget

/-- The two appends write the same. -/
theorem appendChar_snd (s : InlineString capacity) (c : UInt8) :
    (s.appendChar c).2 = (s.appendView [c]).2 := by
  unfold appendChar appendView
  by_cases hfull : s.size ≥ capacity
  · rw [if_pos hfull, if_pos (by simp; omega)]
  · rw [if_neg hfull, if_neg (by simp; omega)]
    rfl

end InlineString

/-! ### Operations on texts without NUL -/

/-- A text without NUL. -/
abbrev NulFree := { sv : Text // (0 : UInt8) ∉ sv }

inductive Operation where
  | assign (sv : NulFree)
  | appendView (sv : NulFree)
  | appendChar (c : UInt8) (h : c ≠ 0)
  | clear
  deriving DecidableEq

/-- The string behind an operation; one that throws has changed what it has changed until
then. -/
def InlineString.after {capacity : ℕ} (s : InlineString capacity) :
    Operation → InlineString capacity
  | .assign sv => s.assign sv
  | .appendView sv => (s.appendView sv).2
  | .appendChar c _ => (s.appendChar c).2
  | .clear => s.clear

/-- The positions of the buffer that some text has been written to, and no terminator since
then. -/
structure Layout where
  size : ℕ
  occupied : ℕ → Bool

namespace Layout

def empty : Layout := ⟨0, fun _ => false⟩

def append (capacity : ℕ) (l : Layout) (length : ℕ) : Layout :=
  if l.size + length > capacity then l
  else ⟨l.size + length, fun i => l.occupied i || (l.size ≤ i && i < l.size + length)⟩

/-- The layout behind an operation: of a text it uses the length. -/
def after (capacity : ℕ) (l : Layout) : Operation → Layout
  | .assign sv =>
      let n := min sv.1.length capacity
      ⟨n, fun i => i < n || (i != n && l.occupied i)⟩
  | .appendView sv => l.append capacity sv.1.length
  | .appendChar _ _ => l.append capacity 1
  | .clear => ⟨0, fun i => i != 0 && l.occupied i⟩

/-- An append of this length throws, or nothing is left over from earlier contents where it
ends. -/
def EndsFree (capacity : ℕ) (l : Layout) (length : ℕ) : Prop :=
  l.size + length ≤ capacity → l.occupied (l.size + length) = false

/-- The condition on an operation. -/
def Admits (capacity : ℕ) (l : Layout) : Operation → Prop
  | .appendView sv => l.EndsFree capacity sv.1.length
  | .appendChar _ _ => l.EndsFree capacity 1
  | .assign _ | .clear => True

end Layout

/-- A string and the layout of its buffer. -/
structure Tracked (capacity : ℕ) where
  string : InlineString capacity
  layout : Layout

namespace Tracked

variable {capacity : ℕ}

def start (capacity : ℕ) : Tracked capacity := ⟨.empty capacity, .empty⟩

def step (t : Tracked capacity) (op : Operation) : Option (Tracked capacity) :=
  some ⟨t.string.after op, t.layout.after capacity op⟩

/-- The layout tells where the buffer has a byte that is not NUL, and the text of the string
has no other. -/
structure Coherent (t : Tracked capacity) : Prop where
  size_eq : t.layout.size = t.string.size
  size_le : t.string.size ≤ capacity
  occupied_iff : ∀ i, t.layout.occupied i = true ↔ t.string.data.getD i 0 ≠ 0
  view_occupied : ∀ i < t.string.size, t.layout.occupied i = true

theorem coherent_start (capacity : ℕ) : (start capacity).Coherent where
  size_eq := rfl
  size_le := Nat.zero_le _
  occupied_iff i := by
    by_cases h : i < capacity + 1 <;> simp [start, Layout.empty, InlineString.empty, h]
  view_occupied i h := absurd h (Nat.not_lt_zero i)

theorem getD_ne_zero {sv : NulFree} {i : ℕ} (h : i < sv.1.length) : sv.1.getD i 0 ≠ 0 := by
  rw [List.getD_eq_getElem _ _ h]
  intro hzero
  have hmem := List.getElem_mem h
  rw [hzero] at hmem
  exact sv.2 hmem

/-- An append of a text without NUL occupies the positions that it writes. -/
theorem Coherent.append {t : Tracked capacity} (h : t.Coherent) (sv : NulFree) :
    (⟨(t.string.appendView sv).2, t.layout.append capacity sv.1.length⟩ :
      Tracked capacity).Coherent := by
  have hsize := h.size_eq
  unfold InlineString.appendView Layout.append
  rw [hsize]
  by_cases hfull : t.string.size + sv.1.length > capacity
  · rw [if_pos hfull, if_pos hfull]
    exact h
  rw [if_neg hfull, if_neg hfull]
  have hroom : t.string.size + sv.1.length ≤ t.string.data.length := by
    rw [t.string.length_data]
    omega
  refine ⟨rfl, by simpa using hfull, fun i => ?_, fun i hi => ?_⟩
  · dsimp only
    rw [getD_store hroom]
    split_ifs with hin
    · simp only [Bool.or_eq_true, Bool.and_eq_true, decide_eq_true_eq]
      exact iff_of_true (.inr hin) (getD_ne_zero (by omega))
    · simp only [Bool.or_eq_true, Bool.and_eq_true, decide_eq_true_eq, hin, or_false]
      exact h.occupied_iff i
  · simp only [Bool.or_eq_true, Bool.and_eq_true, decide_eq_true_eq]
    by_cases hold : i < t.string.size
    · exact .inl (h.view_occupied i hold)
    · exact .inr ⟨by omega, hi⟩

theorem getD_set_zero (data : Text) (n i : ℕ) :
    (data.set n 0).getD i 0 = if i = n then 0 else data.getD i 0 := by
  by_cases h : i = n
  · subst h
    by_cases hlt : i < data.length <;> simp [hlt]
  · simp [h, Ne.symm h]

theorem Coherent.assign {t : Tracked capacity} (h : t.Coherent) (sv : NulFree) :
    (⟨t.string.after (.assign sv), t.layout.after capacity (.assign sv)⟩ :
      Tracked capacity).Coherent := by
  have hlen : (sv.1.take (min sv.1.length capacity)).length = min sv.1.length capacity := by simp
  refine ⟨rfl, Nat.min_le_right _ _, fun i => ?_, fun i hi => ?_⟩
  · simp only [InlineString.after, InlineString.assign, Layout.after]
    rw [getD_set_zero, getD_store (by rw [hlen, t.string.length_data]; omega), hlen]
    rcases Nat.lt_trichotomy i (min sv.1.length capacity) with hlt | rfl | hgt
    · rw [if_neg (by omega), if_pos (by omega)]
      have hget : (sv.1.take (min sv.1.length capacity)).getD (i - 0) 0 = sv.1.getD i 0 := by
        rw [Nat.sub_zero, List.getD_eq_getElem _ _ (by omega),
          List.getD_eq_getElem _ _ (by omega), List.getElem_take]
      simp only [hlt, decide_true, Bool.true_or, true_iff, hget]
      exact getD_ne_zero (by omega)
    · simp
    · rw [if_neg (by omega), if_neg (by omega)]
      simpa [show ¬ i < min sv.1.length capacity by omega,
        show i ≠ min sv.1.length capacity by omega] using h.occupied_iff i
  · exact Bool.or_eq_true_iff.2 (.inl (decide_eq_true hi))

theorem Coherent.clear {t : Tracked capacity} (h : t.Coherent) :
    (⟨t.string.after .clear, t.layout.after capacity .clear⟩ : Tracked capacity).Coherent := by
  refine ⟨rfl, Nat.zero_le _, fun i => ?_, fun i hi => absurd hi (Nat.not_lt_zero i)⟩
  simp only [InlineString.after, InlineString.clear, Layout.after]
  rw [getD_set_zero]
  split_ifs with hzero
  · simp [hzero]
  · simpa [hzero] using h.occupied_iff i

theorem Coherent.step {t u : Tracked capacity} {op : Operation} (h : t.Coherent)
    (hstep : t.step op = some u) : u.Coherent := by
  obtain rfl := Option.some.inj hstep
  cases op with
  | assign sv => exact h.assign sv
  | appendView sv => exact h.append sv
  | appendChar c hc =>
    have happend := h.append ⟨[c], by simpa using hc.symm⟩
    simpa [InlineString.after, Layout.after, InlineString.appendChar_snd] using happend
  | clear => exact h.clear

theorem takeWhile_eq_take {data : Text} {n : ℕ} (hfull : ∀ i < n, data.getD i 0 ≠ 0)
    (hend : data[n]? = some 0) : data.takeWhile (· ≠ 0) = data.take n := by
  obtain ⟨hlt, hzero⟩ := List.getElem?_eq_some_iff.1 hend
  have hsplit : data = data.take n ++ data.drop n := (List.take_append_drop n data).symm
  have hpos : ∀ c ∈ data.take n, decide (c ≠ 0) = true := by
    intro c hc
    obtain ⟨i, hi, rfl⟩ := List.mem_iff_getElem.1 hc
    have hin : i < n := by simp at hi; omega
    have hne := hfull i hin
    rw [List.getD_eq_getElem _ _ (by omega)] at hne
    simpa using hne
  conv_lhs => rw [hsplit]
  rw [List.takeWhile_append_of_pos hpos, List.drop_eq_getElem_cons hlt, hzero]
  simp

/-- A string is sound where the position behind its text is not occupied. -/
theorem Coherent.sound_iff {t : Tracked capacity} (h : t.Coherent) :
    t.string.Sound ↔ t.layout.occupied t.layout.size = false := by
  have hlt : t.string.size < t.string.data.length := by
    rw [t.string.length_data]
    exact Nat.lt_succ_of_le h.size_le
  have hend : t.string.data[t.string.size]? = some 0 ↔
      t.layout.occupied t.layout.size = false := by
    rw [h.size_eq, ← Bool.not_eq_true, h.occupied_iff, not_not, List.getD_eq_getElem _ _ hlt,
      List.getElem?_eq_getElem hlt, Option.some_inj]
  constructor
  · exact fun hsound => hend.1 hsound.terminated
  · intro hfree
    have hfull : ∀ i < t.string.size, t.string.data.getD i 0 ≠ 0 :=
      fun i hi => (h.occupied_iff i).1 (h.view_occupied i hi)
    exact {
      size_le := h.size_le
      terminated := hend.2 hfree
      cStr_eq_view := takeWhile_eq_take hfull (hend.2 hfree)
      appendView_throws := fun sv e he => by rw [InlineString.appendView_of_throws he]
      appendChar_throws := fun c e he => by rw [InlineString.appendChar_of_throws he] }

end Tracked

theorem Layout.append_free_iff {capacity : ℕ} {l : Layout} (length : ℕ)
    (h : l.occupied l.size = false) :
    (l.append capacity length).occupied (l.append capacity length).size = false ↔
      l.EndsFree capacity length := by
  unfold Layout.append Layout.EndsFree
  split_ifs with hfull
  · exact iff_of_true h fun hle => absurd hfull (by omega)
  · simp [show l.size + length ≤ capacity by omega]

/-- An operation ends behind a free position exactly if it is admitted. -/
theorem Layout.after_free_iff {capacity : ℕ} {l : Layout} (op : Operation)
    (h : l.occupied l.size = false) :
    (l.after capacity op).occupied (l.after capacity op).size = false ↔ l.Admits capacity op := by
  cases op with
  | assign sv =>
    refine iff_of_true ?_ trivial
    simpa [Layout.after] using Nat.le_of_lt
  | appendView sv => exact Layout.append_free_iff sv.1.length h
  | appendChar c hc => exact Layout.append_free_iff 1 h
  | clear => simp [Layout.after, Layout.Admits]

/-- A string is sound throughout exactly if no append ends in front of something that earlier
contents have left. -/
theorem inlineString_sound_iff (capacity : ℕ) (ops : List Operation) :
    Always Tracked.step (fun t => t.string.Sound) (Tracked.start capacity) ops ↔
      Guarded Tracked.step (fun t op => t.layout.Admits capacity op)
        (Tracked.start capacity) ops := by
  have hrun : ∀ (ops : List Operation) (t : Tracked capacity),
      ∃ u, run Tracked.step t ops = some u := by
    intro ops
    induction ops with
    | nil => exact fun t => ⟨t, rfl⟩
    | cons op ops ih => exact fun t => ih _
  obtain ⟨u, hu⟩ := hrun ops (Tracked.start capacity)
  have hstart : (Tracked.start capacity).string.Sound :=
    (Tracked.coherent_start capacity).sound_iff.2 rfl
  refine always_iff_guarded (Tracked.coherent_start capacity)
    (fun _ _ _ h hstep => h.step hstep) hstart (fun t op v h hgood hstep => ?_) hu
  rw [(h.step hstep).sound_iff]
  obtain rfl := Option.some.inj hstep
  exact Layout.after_free_iff op (h.sound_iff.1 hgood)

/-- After "abc" and a `clear`, the text "x" is followed by the "bc" of before. -/
theorem not_sound_of_append_behind_longer :
    ¬ ((((InlineString.empty 3).after (.assign ⟨ascii "abc", by decide⟩)).after .clear).after
      (.appendView ⟨ascii "x", by decide⟩)).Sound := by
  intro h
  exact absurd h.cStr_eq_view (by decide)

end Demiplane.Gears

import Demiplane.Text.Getline

/-!
`visible_width`, `lines` and `pad`. The width is taken by a scan that skips escape sequences,
from `ESC [` to the next `m`. It is not additive: what is skipped does not end where a piece of
the text ends. It is additive at the end of a piece that does not stop within a sequence.
-/

namespace Demiplane.Ink

open Text

inductive Align where
  | left
  | center
  | right
  deriving DecidableEq, Repr

/-- Second and later bytes of a UTF-8 sequence. -/
def isContinuation (c : UInt8) : Bool := c &&& 0xC0 == 0x80

/-- The column that a byte takes. -/
def byteWidth (c : UInt8) : ℕ := if isContinuation c then 0 else 1

/-- The loop of `visible_width`; `inside` is whether it is in the loop that looks for the `m` at
the end of a sequence. The byte of ESC is 27, that of `[` is 91 and that of `m` is 109. -/
def visibleWidthFrom : Bool → Text → ℕ
  | _, [] => 0
  | true, c :: s => if c = 109 then visibleWidthFrom false s else visibleWidthFrom true s
  | false, [c] => byteWidth c
  | false, c :: d :: s =>
      if c = 27 ∧ d = 91 then visibleWidthFrom true s
      else byteWidth c + visibleWidthFrom false (d :: s)

def visibleWidth (s : Text) : ℕ := visibleWidthFrom false s

/-- Where the scan stands at the end of the text. -/
def insideAfter : Bool → Text → Bool
  | inside, [] => inside
  | true, c :: s => insideAfter (c ≠ 109) s
  | false, [_] => false
  | false, c :: d :: s =>
      if c = 27 ∧ d = 91 then insideAfter true s else insideAfter false (d :: s)

/-- Every escape sequence of the text has its end in the text. -/
def Complete (s : Text) : Prop := insideAfter false s = false

instance (s : Text) : Decidable (Complete s) := inferInstanceAs (Decidable (_ = _))

/-- The text does not stop within an escape sequence, and not behind an ESC that could begin one
either. -/
def Closed (s : Text) : Prop := Complete s ∧ s.getLast? ≠ some 27

instance (s : Text) : Decidable (Closed s) := inferInstanceAs (Decidable (_ ∧ _))

/-- `s.substr(start, i - start)` is `piece` as far as the loop has come. -/
def linesFrom (piece : Text) : Text → List Text
  | [] => [piece]
  | c :: s => if c = 10 then piece :: linesFrom [] s else linesFrom (piece ++ [c]) s

/-- `lines`. -/
def lines (s : Text) : List Text := linesFrom [] s

/-- The byte of a space is 32. -/
def spaces (n : ℕ) : Text := List.replicate n 32

def pad (t : Text) (width : ℕ) (a : Align) : Text :=
  let vw := visibleWidth t
  if vw ≥ width then t
  else
    let missing := width - vw
    match a with
    | .left => t ++ spaces missing
    | .right => spaces missing ++ t
    | .center =>
        let left := missing / 2
        let right := missing - left
        spaces left ++ t ++ spaces right

/-- `colors::reset`. -/
def reset : Text := 27 :: ascii "[0m"

def colorize (code text : Text) : Text := code ++ text ++ reset

/-! ### Where widths add up -/

/-- The second text does not go on with what the first one begins. -/
def Meets (a b : Text) : Prop := a.getLast? ≠ some 27 ∨ b.head? ≠ some 91

theorem Meets.tail {c : UInt8} {a b : Text} (h : Meets (c :: a) b) : Meets a b := by
  cases a with
  | nil => exact .inl (by simp)
  | cons d a => simpa [Meets] using h

/-- The scan of two texts is the scan of the one and then of the other. -/
theorem scan_append (inside : Bool) (a b : Text) (hmeets : Meets a b)
    (h : insideAfter inside a = false) :
    visibleWidthFrom inside (a ++ b) = visibleWidthFrom inside a + visibleWidthFrom false b ∧
      insideAfter inside (a ++ b) = insideAfter false b := by
  fun_induction visibleWidthFrom inside a with
  | case1 inside =>
    obtain rfl : inside = false := by simpa [insideAfter] using h
    simp
  | case2 s ih =>
    simpa [visibleWidthFrom, insideAfter] using ih hmeets.tail (by simpa [insideAfter] using h)
  | case3 c s hc ih =>
    simpa [visibleWidthFrom, insideAfter, hc] using
      ih hmeets.tail (by simpa [insideAfter, hc] using h)
  | case4 c =>
    cases b with
    | nil => simp [visibleWidthFrom, insideAfter]
    | cons d s =>
      have hno : ¬ (c = 27 ∧ d = 91) := by
        rintro ⟨rfl, rfl⟩
        rcases hmeets with h | h <;> simp at h
      simp [visibleWidthFrom, insideAfter, hno]
  | case5 c d s hseq ih =>
    obtain ⟨rfl, rfl⟩ := hseq
    simpa [visibleWidthFrom, insideAfter] using
      ih hmeets.tail.tail (by simpa [insideAfter] using h)
  | case6 c d s hseq ih =>
    have hwidth := ih hmeets.tail (by simpa [insideAfter, hseq] using h)
    simp only [List.cons_append, visibleWidthFrom, insideAfter, hseq, if_false] at hwidth ⊢
    exact ⟨by omega, hwidth.2⟩

theorem visibleWidth_append {a b : Text} (h : Complete a) (hmeets : Meets a b) :
    visibleWidth (a ++ b) = visibleWidth a + visibleWidth b :=
  (scan_append false a b hmeets h).1

theorem complete_append {a b : Text} (h : Complete a) (hmeets : Meets a b) (hb : Complete b) :
    Complete (a ++ b) :=
  (scan_append false a b hmeets h).2.trans hb

/-! ### Lines -/

theorem not_mem_of_mem_linesFrom {piece s line : Text} (hpiece : 10 ∉ piece)
    (h : line ∈ linesFrom piece s) : 10 ∉ line := by
  fun_induction linesFrom piece s with
  | case1 piece =>
    obtain rfl := List.mem_singleton.1 h
    exact hpiece
  | case2 piece s ih =>
    rcases List.mem_cons.1 h with rfl | h
    · exact hpiece
    · exact ih (by simp) h
  | case3 piece c s hc ih => exact ih (by simp [hpiece, Ne.symm hc]) h

theorem not_mem_of_mem_lines {s line : Text} (h : line ∈ lines s) : 10 ∉ line :=
  not_mem_of_mem_linesFrom (by simp) h

/-! ### Blocks -/

/-- A piece of a line that takes `w` columns. -/
structure Run (w : ℕ) (t : Text) : Prop where
  complete : Complete t
  newlineFree : 10 ∉ t
  width : visibleWidth t = w

/-- One that anything may be written behind. -/
structure Block (w : ℕ) (t : Text) : Prop extends Run w t where
  last : t.getLast? ≠ some 27

theorem Run.append {v w : ℕ} {a b : Text} (ha : Run v a) (hb : Run w b) (h : Meets a b) :
    Run (v + w) (a ++ b) where
  complete := complete_append ha.complete h hb.complete
  newlineFree := by simp [ha.newlineFree, hb.newlineFree]
  width := by rw [visibleWidth_append ha.complete h, ha.width, hb.width]

/-- Behind a block, or behind anything if the block does not begin with `[`. -/
theorem Block.after {v w : ℕ} {a b : Text} (ha : Run v a) (hb : Block w b) (h : Meets a b)
    (hne : b ≠ [] ∨ a.getLast? ≠ some 27) : Block (v + w) (a ++ b) where
  toRun := ha.append hb.toRun h
  last := by
    rw [List.getLast?_append]
    cases hlast : b.getLast? with
    | none =>
      rcases hne with hne | hne
      · exact absurd (List.getLast?_eq_none_iff.1 hlast) hne
      · simpa using hne
    | some c => simpa [hlast] using hb.last

theorem Block.append {v w : ℕ} {a b : Text} (ha : Block v a) (hb : Block w b) :
    Block (v + w) (a ++ b) :=
  Block.after ha.toRun hb (.inl ha.last) (.inr ha.last)

theorem block_nil : Block 0 [] := ⟨⟨rfl, by simp, rfl⟩, by simp⟩

theorem block_flatMap {γ : Type*} {f : γ → Text} {w : γ → ℕ} {l : List γ}
    (h : ∀ c ∈ l, Block (w c) (f c)) : Block (l.map w).sum (l.flatMap f) := by
  induction l with
  | nil => exact block_nil
  | cons c l ih =>
    rw [List.map_cons, List.sum_cons, List.flatMap_cons]
    exact (h c List.mem_cons_self).append (ih fun c hc => h c (List.mem_cons_of_mem _ hc))

theorem block_flatten_replicate {t : Text} {w : ℕ} (h : Block w t) (n : ℕ) :
    Block (n * w) (List.replicate n t).flatten := by
  induction n with
  | zero => simpa using block_nil
  | succ n ih =>
    rw [List.replicate_succ, List.flatten_cons, Nat.succ_mul, Nat.add_comm]
    exact h.append ih

theorem block_space : Block 1 [32] := ⟨⟨rfl, by decide, rfl⟩, by decide⟩

theorem block_spaces (n : ℕ) : Block n (spaces n) := by
  have hflat : (List.replicate n [(32 : UInt8)]).flatten = spaces n := by
    induction n with
    | zero => rfl
    | succ n ih => rw [List.replicate_succ, List.flatten_cons, ih]; rfl
  have hblock := block_flatten_replicate block_space n
  rwa [hflat, Nat.mul_one] at hblock

theorem meets_spaces (t : Text) (n : ℕ) : Meets t (spaces n) := by
  cases n with
  | zero => exact .inr (by simp [spaces])
  | succ n => exact .inr (by simp [spaces, List.replicate_succ])

/-- A text that is not too wide is filled up to the width. -/
theorem run_pad {t : Text} {width : ℕ} (hcomplete : Complete t) (hnewline : 10 ∉ t)
    (hle : visibleWidth t ≤ width) (a : Align) : Run width (pad t width a) := by
  have ht : Run (visibleWidth t) t := ⟨hcomplete, hnewline, rfl⟩
  unfold pad
  dsimp only
  split_ifs with hge
  · obtain heq : visibleWidth t = width := by omega
    exact heq ▸ ht
  · cases a with
    | left =>
      have hrun := ht.append (block_spaces (width - visibleWidth t)).toRun (meets_spaces t _)
      rwa [show visibleWidth t + (width - visibleWidth t) = width by omega] at hrun
    | right =>
      have hspaces := block_spaces (width - visibleWidth t)
      have hrun := hspaces.toRun.append ht (.inl hspaces.last)
      rwa [show width - visibleWidth t + visibleWidth t = width by omega] at hrun
    | center =>
      have hspaces := block_spaces ((width - visibleWidth t) / 2)
      have hrun := (hspaces.toRun.append ht (.inl hspaces.last)).append
        (block_spaces (width - visibleWidth t - (width - visibleWidth t) / 2)).toRun
        (meets_spaces _ _)
      rwa [show (width - visibleWidth t) / 2 + visibleWidth t +
        (width - visibleWidth t - (width - visibleWidth t) / 2) = width by omega] at hrun

/-- One SGR sequence. -/
def IsSgr (code : Text) : Prop :=
  ∃ params : Text, code = [27, 91] ++ params ++ [109] ∧ 109 ∉ params ∧ 10 ∉ params

theorem scan_params {params : Text} (h : 109 ∉ params) (s : Text) :
    visibleWidthFrom true (params ++ 109 :: s) = visibleWidthFrom false s ∧
      insideAfter true (params ++ 109 :: s) = insideAfter false s := by
  induction params with
  | nil => simp [visibleWidthFrom, insideAfter]
  | cons c params ih =>
    have hc : c ≠ 109 := fun hc => h (hc ▸ List.mem_cons_self)
    have ih := ih fun hmem => h (List.mem_cons_of_mem _ hmem)
    simpa [visibleWidthFrom, insideAfter, hc] using ih

theorem IsSgr.block {code : Text} (h : IsSgr code) : Block 0 code := by
  obtain ⟨params, rfl, hm, hnewline⟩ := h
  obtain ⟨hwidth, hinside⟩ := scan_params hm []
  refine ⟨⟨?_, by simpa using hnewline, ?_⟩, by rw [List.getLast?_concat]; decide⟩
  · simpa [Complete, insideAfter] using hinside
  · simpa [visibleWidth, visibleWidthFrom] using hwidth

theorem isSgr_reset : IsSgr reset := ⟨ascii "0", by decide, by decide, by decide⟩

end Demiplane.Ink

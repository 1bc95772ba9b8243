import Mathlib.Logic.Function.Basic
import Demiplane.Regex.Syntax

/-!
How a regular expression is matched: the backtracking of the ECMAScript grammar, where each node
of the tree is given what has to match behind it. The first of the ways to match that lets the
rest match as well is taken.

Two rules about it serve for the patterns that are made of plain text and of groups for one or
more characters of a set: plain text matches itself, and such a group matches with every number
of characters that lets the rest match.
-/

namespace Demiplane.Regex

open Text

/-- A place in a text: what stands before it, with the last byte first, and what is behind. -/
structure Cursor where
  before : Text
  after : Text
  deriving DecidableEq

def Cursor.advance (x : Cursor) (n : ℕ) : Cursor :=
  ⟨(x.after.take n).reverse ++ x.before, x.after.drop n⟩

/-- The text that each group matched last, of those that took part in the match. -/
abbrev Captures := ℕ → Option Text

/-- What the rest of an expression makes of a place, and of the captures on the way to it. -/
abbrev Continuation := Cursor → Captures → Option (Cursor × Captures)

abbrev Matcher := Cursor → Captures → Continuation → Option (Cursor × Captures)

/-- One byte that satisfies `p`. -/
def consume (p : UInt8 → Bool) : Matcher := fun x caps k =>
  match x.after with
  | [] => none
  | c :: t => if p c then k ⟨c :: x.before, t⟩ caps else none

/-- The repetitions of a term. Beyond the required ones a repetition that matches nothing is
refused, so that at most `min + x.after.length` of them are made. -/
def iterate (m : Matcher) (greedy : Bool) : ℕ → ℕ → Option ℕ → Matcher
  | 0, _, _, _, _, _ => none
  | fuel + 1, min, max, x, caps, k =>
      let once := m x caps fun y caps =>
        if min = 0 ∧ y.after.length = x.after.length then none
        else iterate m greedy fuel (min - 1) (max.map (· - 1)) y caps k
      if max = some 0 then k x caps
      else if min ≠ 0 then once
      else if greedy then once.or (k x caps)
      else (k x caps).or once

/-- The numbers of the groups in an expression. -/
def groups : Regex → List ℕ
  | .group i r => i :: r.groups
  | .seq r s | .alt r s => r.groups ++ s.groups
  | .quantified r _ _ _ | .lookahead _ r => r.groups
  | _ => []

/-- Each repetition of a term begins without captures of its groups. -/
def forget (indices : List ℕ) (caps : Captures) : Captures :=
  fun i => if i ∈ indices then none else caps i

def atBoundary (x : Cursor) : Bool :=
  (x.before.head?.any CharClass.word.contains) != (x.after.head?.any CharClass.word.contains)

def matchAt : Regex → Matcher
  | .empty, x, caps, k => k x caps
  | .char c, x, caps, k => consume (· == c) x caps k
  | .any, x, caps, k => consume (fun c => c != 10 && c != 13) x caps k
  | .set negated items, x, caps, k =>
      consume (fun c => (items.any (·.contains c)) != negated) x caps k
  | .seq r s, x, caps, k => r.matchAt x caps fun y caps => s.matchAt y caps k
  | .alt r s, x, caps, k => (r.matchAt x caps k).or (s.matchAt x caps k)
  | .group i r, x, caps, k =>
      r.matchAt x caps fun y caps =>
        k y (Function.update caps i (some (x.after.take (x.after.length - y.after.length))))
  | .quantified r min max greedy, x, caps, k =>
      iterate (fun x caps k => r.matchAt x (forget r.groups caps) k) greedy
        (min + x.after.length + 1) min max x caps k
  | .lookahead negated r, x, caps, k =>
      match r.matchAt x caps fun y caps => some (y, caps) with
      | some (_, inside) => if negated then none else k x inside
      | none => if negated then k x caps else none
  | .backref i, x, caps, k =>
      match caps i with
      | none => k x caps
      | some t => if t.isPrefixOf x.after then k (x.advance t.length) caps else none
  | .lineStart, x, caps, k => if x.before = [] then k x caps else none
  | .lineEnd, x, caps, k => if x.after = [] then k x caps else none
  | .boundary negated, x, caps, k => if atBoundary x != negated then k x caps else none

def noCaptures : Captures := fun _ => none

/-- `std::regex_match`: the captures of a match of the whole text. -/
def regexMatch (r : Regex) (s : Text) : Option Captures :=
  (r.matchAt ⟨[], s⟩ noCaptures fun y caps =>
    if y.after = [] then some (y, caps) else none).map Prod.snd

/-- What `std::regex_search` found: where it begins and ends, and its captures. -/
structure Found where
  start : Cursor
  stop : Cursor
  captures : Captures

def foundAt (r : Regex) (x : Cursor) : Option Found :=
  (r.matchAt x noCaptures fun y caps => some (y, caps)).map fun (y, caps) => ⟨x, y, caps⟩

/-- `std::regex_search` behind the bytes `before`: the first place where `r` matches. -/
def regexSearch (r : Regex) : Text → Text → Option Found
  | before, [] => foundAt r ⟨before, []⟩
  | before, c :: t => (foundAt r ⟨before, c :: t⟩).or (regexSearch r (c :: before) t)

/-- `std::regex_replace` of an expression that matches no empty text, by a text without `$`; at
most `fuel` matches are replaced. -/
def regexReplaceLoop (r : Regex) (fmt : Text) : ℕ → Text → Text → Text
  | 0, _, t => t
  | fuel + 1, before, t =>
      match regexSearch r before t with
      | none => t
      | some found =>
          t.take (t.length - found.start.after.length) ++ fmt ++
            regexReplaceLoop r fmt fuel found.stop.before found.stop.after

def regexReplace (r : Regex) (fmt s : Text) : Text := regexReplaceLoop r fmt s.length [] s

/-! ### Plain text -/

variable {x : Cursor} {caps : Captures} {k : Continuation}

@[simp] theorem sequence_nil : sequence [] = .empty := rfl

@[simp] theorem sequence_cons (r : Regex) (rs : List Regex) :
    sequence (r :: rs) = .seq r (sequence rs) := rfl

@[simp] theorem matchAt_empty : matchAt .empty x caps k = k x caps := rfl

@[simp] theorem matchAt_seq (r s : Regex) :
    matchAt (.seq r s) x caps k = r.matchAt x caps fun y caps => s.matchAt y caps k := rfl

theorem matchAt_char_cons (c d : UInt8) (before t : Text) :
    matchAt (.char c) ⟨before, d :: t⟩ caps k =
      if d = c then k ⟨d :: before, t⟩ caps else none := by
  simp [matchAt, consume]

theorem matchAt_char_nil (c : UInt8) (before : Text) :
    matchAt (.char c) ⟨before, []⟩ caps k = none := rfl

/-- Plain text matches itself. -/
theorem matchAt_text (l : Text) (rs : List Regex) (before t : Text) :
    matchAt (sequence (l.map .char ++ rs)) ⟨before, l ++ t⟩ caps k =
      matchAt (sequence rs) ⟨l.reverse ++ before, t⟩ caps k := by
  induction l generalizing before with
  | nil => rfl
  | cons c l ih => simp [matchAt_char_cons, ih]

/-- Plain text matches nothing else. -/
theorem prefix_of_matchAt_text {l : Text} {rs : List Regex} {before t : Text}
    {result : Cursor × Captures}
    (h : matchAt (sequence (l.map .char ++ rs)) ⟨before, t⟩ caps k = some result) :
    ∃ t', t = l ++ t' ∧
      matchAt (sequence rs) ⟨l.reverse ++ before, t'⟩ caps k = some result := by
  induction l generalizing before t with
  | nil => exact ⟨t, rfl, h⟩
  | cons c l ih =>
    rw [List.map_cons, List.cons_append, sequence_cons, matchAt_seq] at h
    cases t with
    | nil => rw [matchAt_char_nil] at h; cases h
    | cons d t =>
      rw [matchAt_char_cons] at h
      split_ifs at h with hd
      subst hd
      obtain ⟨t', rfl, hrest⟩ := ih h
      exact ⟨t', rfl, by simpa using hrest⟩

/-! ### One or more characters of a set -/

section Repetition

variable {p : UInt8 → Bool} {greedy : Bool}

/-- At least `min` bytes that satisfy `p`, and behind them the rest matches. -/
def Takes (p : UInt8 → Bool) (min : ℕ) (x : Cursor) (caps : Captures) (k : Continuation)
    (result : Cursor × Captures) : Prop :=
  ∃ s t, x.after = s ++ t ∧ min ≤ s.length ∧ (∀ c ∈ s, p c = true) ∧
    k ⟨s.reverse ++ x.before, t⟩ caps = some result

theorem takes_zero {result : Cursor × Captures} (h : k x caps = some result) :
    Takes p 0 x caps k result :=
  ⟨[], x.after, rfl, Nat.zero_le _, by simp, h⟩

theorem Takes.cons {min : ℕ} {before t : Text} {c : UInt8} {result : Cursor × Captures}
    (h : Takes p (min - 1) ⟨c :: before, t⟩ caps k result) (hc : p c = true) :
    Takes p min ⟨before, c :: t⟩ caps k result := by
  obtain ⟨s, t', rfl, hs, hall, hk⟩ := h
  exact ⟨c :: s, t', rfl, Nat.le_add_of_sub_le hs, List.forall_mem_cons.mpr ⟨hc, hall⟩,
    by simpa using hk⟩

/-- What the repetitions match is taken from the text. -/
theorem takes_of_iterate_consume {fuel min : ℕ} {result : Cursor × Captures}
    (h : iterate (consume p) greedy fuel min none x caps k = some result) :
    Takes p min x caps k result := by
  induction fuel generalizing min x with
  | zero => cases h
  | succ fuel ih =>
    have honce : (consume p x caps fun y caps =>
          if min = 0 ∧ y.after.length = x.after.length then none
          else iterate (consume p) greedy fuel (min - 1) none y caps k) = some result →
        Takes p min x caps k result := by
      intro h
      obtain ⟨before, t⟩ := x
      cases t with
      | nil => cases h
      | cons c t =>
        simp only [consume] at h
        split_ifs at h with hp
        exact (ih h).cons hp
    simp only [iterate, reduceCtorEq, if_false, Option.map_none] at h
    -- one more repetition is made, or the rest follows
    split_ifs at h with hmin hgreedy
    · exact honce h
    · obtain rfl := not_not.mp hmin
      rcases Option.or_eq_some_iff.mp h with h | ⟨_, h⟩
      · exact honce h
      · exact takes_zero h
    · obtain rfl := not_not.mp hmin
      rcases Option.or_eq_some_iff.mp h with h | ⟨_, h⟩
      · exact takes_zero h
      · exact honce h

theorem iterate_consume_ne_none {fuel min : ℕ} {before s t : Text} (hmin : min ≤ s.length)
    (hs : ∀ c ∈ s, p c = true) (hfuel : s.length < fuel)
    (hk : k ⟨s.reverse ++ before, t⟩ caps ≠ none) :
    iterate (consume p) greedy fuel min none ⟨before, s ++ t⟩ caps k ≠ none := by
  induction s generalizing fuel min before with
  | nil =>
    obtain ⟨fuel, rfl⟩ := Nat.exists_eq_succ_of_ne_zero (Nat.pos_iff_ne_zero.mp hfuel)
    obtain rfl := Nat.le_zero.mp hmin
    have hk : k ⟨before, t⟩ caps ≠ none := hk
    simp only [iterate, reduceCtorEq, if_false, ne_eq, not_true_eq_false, List.nil_append]
    split_ifs
    · exact fun h => hk (Option.or_eq_none_iff.mp h).2
    · exact fun h => hk (Option.or_eq_none_iff.mp h).1
  | cons c s ih =>
    obtain ⟨fuel, rfl⟩ := Nat.exists_eq_succ_of_ne_zero (Nat.ne_zero_of_lt hfuel)
    have hnext : iterate (consume p) greedy fuel (min - 1) none ⟨c :: before, s ++ t⟩ caps k ≠
        none :=
      ih (Nat.sub_le_of_le_add hmin) (fun d hd => hs d (List.mem_cons_of_mem _ hd))
        (Nat.lt_of_succ_lt_succ hfuel) (by simpa using hk)
    have hp := hs c List.mem_cons_self
    have honce : (consume p ⟨before, c :: s ++ t⟩ caps fun y caps =>
        if min = 0 ∧ y.after.length = (c :: s ++ t).length then none
        else iterate (consume p) greedy fuel (min - 1) none y caps k) ≠ none := by
      simpa [consume, hp] using hnext
    simp only [iterate, reduceCtorEq, if_false, Option.map_none]
    split_ifs
    · exact honce
    · exact fun h => honce (Option.or_eq_none_iff.mp h).1
    · exact fun h => honce (Option.or_eq_none_iff.mp h).2

end Repetition

/-- A group for one or more characters that are none of the ones listed. -/
def someExcept (items : List ClassItem) (index : ℕ) : Regex :=
  .group index (sequence [.quantified (.set true items) 1 none true])

section SomeExcept

variable {items : List ClassItem} {index : ℕ}

theorem forget_nil (caps : Captures) : forget [] caps = caps := by
  funext i
  simp [forget]

theorem matchAt_someExcept (before t : Text) :
    matchAt (someExcept items index) ⟨before, t⟩ caps k =
      iterate (consume fun c => (items.any (·.contains c)) != true) true (1 + t.length + 1) 1 none
        ⟨before, t⟩ caps fun y caps =>
          k y (Function.update caps index (some (t.take (t.length - y.after.length)))) := by
  have hset : (fun x caps k => matchAt (.set true items) x (forget (groups (.set true items)) caps)
      k) = consume fun c => (items.any (·.contains c)) != true := by
    funext x caps k
    simp [groups, forget_nil, matchAt]
  rw [someExcept, matchAt, sequence_cons, sequence_nil, matchAt_seq]
  simp only [matchAt_empty]
  rw [matchAt, hset]

/-- A set of one character is avoided by the texts without it. -/
theorem forall_not_contains_single {stop : UInt8} {s : Text} :
    (∀ c ∈ s, [ClassItem.single stop].any (·.contains c) = false) ↔ stop ∉ s := by
  simp only [List.any_cons, List.any_nil, Bool.or_false, ClassItem.contains, beq_eq_false_iff_ne]
  exact ⟨fun h hmem => h stop hmem rfl, fun h c hc heq => h (heq ▸ hc)⟩

/-- The group takes a part that is not empty and has none of the characters. -/
theorem exists_of_matchAt_someExcept {before t : Text} {result : Cursor × Captures}
    (h : matchAt (someExcept items index) ⟨before, t⟩ caps k = some result) :
    ∃ s t', t = s ++ t' ∧ s ≠ [] ∧ (∀ c ∈ s, items.any (·.contains c) = false) ∧
      k ⟨s.reverse ++ before, t'⟩ (Function.update caps index (some s)) = some result := by
  rw [matchAt_someExcept] at h
  obtain ⟨s, t', rfl, hs, hall, hk⟩ := takes_of_iterate_consume h
  refine ⟨s, t', rfl, List.length_pos_iff.mp hs, fun c hc => ?_, ?_⟩
  · simpa using hall c hc
  · simpa using hk

/-- Every such part is tried. -/
theorem matchAt_someExcept_ne_none {before s t : Text} (hne : s ≠ [])
    (hs : ∀ c ∈ s, items.any (·.contains c) = false)
    (hk : k ⟨s.reverse ++ before, t⟩ (Function.update caps index (some s)) ≠ none) :
    matchAt (someExcept items index) ⟨before, s ++ t⟩ caps k ≠ none := by
  rw [matchAt_someExcept]
  refine iterate_consume_ne_none (List.length_pos_iff.mpr hne) (fun c hc => ?_) ?_ ?_
  · simpa using hs c hc
  · rw [List.length_append]
    omega
  · simpa using hk

end SomeExcept

end Demiplane.Regex

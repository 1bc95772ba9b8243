import Mathlib.Data.List.TakeWhile
import Demiplane.Regex.Matching
import Demiplane.Text.Columns

/-!
Patterns of plain text with groups in it, each for one or more characters other than a stop
character. Such a pattern matches a text exactly if the text splits into the plain text and one
part for each group, and the groups capture the parts of a split.
-/

namespace Demiplane.Regex

open Text

/-- No character of the text means anything to a pattern. -/
def PlainText (l : Text) : Prop := ∀ c ∈ l, c ∉ syntaxCharacters

instance (l : Text) : Decidable (PlainText l) :=
  List.decidableBAll (fun c => c ∉ syntaxCharacters) l

variable {stop : UInt8} {first : Text} {rest : List Text}

/-- The pattern of a group. -/
def groupPattern (stop : UInt8) : Text := ascii "([^" ++ stop :: ascii "]+)"

/-- Plain text, with a group before each of the texts in `rest`. -/
def plainPattern (stop : UInt8) (first : Text) (rest : List Text) : Text :=
  ascii "^" ++ (first ++ rest.flatMap (groupPattern stop ++ ·)) ++ ascii "$"

/-- The groups with the text behind each of them; `index` is the number of the first one. -/
def groupTerms (stop : UInt8) : ℕ → List Text → List Regex
  | _, [] => []
  | index, l :: rest =>
      someExcept [.single stop] index :: (l.map .char ++ groupTerms stop (index + 1) rest)

def plainRegex (stop : UInt8) (first : Text) (rest : List Text) : Regex :=
  sequence (.lineStart :: (first.map .char ++ (groupTerms stop 1 rest ++ [.lineEnd])))

/-- A text that consists of the plain text and of one part for each group. -/
structure Split (stop : UInt8) (first : Text) (rest : List Text) (s : Text)
    (parts : List Text) : Prop where
  length : parts.length = rest.length
  text : s = first ++ (parts.zip rest).flatMap fun e => e.1 ++ e.2
  part : ∀ p ∈ parts, p ≠ [] ∧ stop ∉ p

/-! ### Tokens -/

/-- The tokens of a text, with any fuel that is enough for it. -/
def Lexes (t : Text) (ts : List Token) : Prop := ∀ fuel, t.length ≤ fuel → tokens fuel t = .ok ts

theorem lexes_nil : Lexes [] [] := fun fuel _ => by cases fuel <;> rfl

theorem lexes_cons {c : UInt8} {t t' : Text} {token : Token} {ts : List Token}
    (hnext : nextToken c t = .ok (token, t')) (hlen : t'.length ≤ t.length) (h : Lexes t' ts) :
    Lexes (c :: t) (token :: ts) := by
  intro fuel hfuel
  obtain ⟨fuel, rfl⟩ := Nat.exists_eq_succ_of_ne_zero (Nat.ne_zero_of_lt hfuel)
  have hrest := h fuel (hlen.trans (Nat.le_of_succ_le_succ hfuel))
  simp only [tokens, hnext, bind, Except.bind, hrest]

theorem lexes_plain {l t : Text} {ts : List Token} (hl : PlainText l) (h : Lexes t ts) :
    Lexes (l ++ t) (l.map (fun c => .atom (.char c)) ++ ts) := by
  induction l with
  | nil => exact h
  | cons c l ih =>
    have hnext : nextToken c (l ++ t) = .ok (.atom (.char c), l ++ t) :=
      if_pos (hl c List.mem_cons_self)
    exact lexes_cons hnext le_rfl (ih fun d hd => hl d (List.mem_cons_of_mem _ hd))

/-- The tokens of a group. -/
def groupTokens (stop : UInt8) : List Token :=
  [.opening .capture, .atom (.set true [.single stop]), .quantifier 1 none, .close]

theorem classAtom_plain {c : UInt8} (hc : c ∉ syntaxCharacters) (t : Text) :
    classAtom (c :: t) = .ok (.single c, t) := by
  have hescape : c ≠ '\\'.toUInt8 := fun h => hc (h ▸ by decide)
  have hbracket : c ≠ '['.toUInt8 := fun h => hc (h ▸ by decide)
  simp [classAtom, hescape, hbracket]

theorem bracketExpression_plain {c : UInt8} (hc : c ∉ syntaxCharacters) (t : Text) :
    bracketExpression ('^'.toUInt8 :: c :: ']'.toUInt8 :: t) =
      .ok (.atom (.set true [.single c]), t) := by
  have hclose : c ≠ ']'.toUInt8 := fun h => hc (h ▸ by decide)
  have hmember : classMember (c :: ']'.toUInt8 :: t) = .ok (.single c, ']'.toUInt8 :: t) := by
    rw [classMember, classAtom_plain hc]
    cases t <;> rfl
  have hitems : classItems (t.length + 3) (c :: ']'.toUInt8 :: t) = .ok ([.single c], t) := by
    rw [classItems, if_neg (by simpa using hclose), hmember]
    rfl
  have hlength : ('^'.toUInt8 :: c :: ']'.toUInt8 :: t).length = t.length + 3 := rfl
  rw [bracketExpression, hlength]
  simp [hitems]

theorem lexes_group (hstop : stop ∉ syntaxCharacters) {t : Text} {ts : List Token}
    (h : Lexes t ts) : Lexes (groupPattern stop ++ t) (groupTokens stop ++ ts) := by
  have hopening : nextToken '('.toUInt8 (ascii "[^" ++ stop :: ascii "]+)" ++ t) =
      .ok (.opening .capture, ascii "[^" ++ stop :: ascii "]+)" ++ t) := rfl
  have hbracket : nextToken '['.toUInt8 ('^'.toUInt8 :: stop :: ascii "]+)" ++ t) =
      .ok (.atom (.set true [.single stop]), ascii "+)" ++ t) :=
    bracketExpression_plain hstop (ascii "+)" ++ t)
  refine lexes_cons hopening le_rfl ?_
  refine lexes_cons hbracket (by simp [ascii]) ?_
  exact lexes_cons rfl le_rfl (lexes_cons rfl le_rfl h)

theorem lexes_groups (hstop : stop ∉ syntaxCharacters) (hrest : ∀ l ∈ rest, PlainText l)
    {t : Text} {ts : List Token} (h : Lexes t ts) :
    Lexes (rest.flatMap (groupPattern stop ++ ·) ++ t)
      (rest.flatMap (fun l => groupTokens stop ++ l.map fun c => .atom (.char c)) ++ ts) := by
  induction rest with
  | nil => exact h
  | cons l rest ih =>
    have htail := ih fun l hl => hrest l (List.mem_cons_of_mem _ hl)
    simpa using lexes_group hstop (lexes_plain (hrest l List.mem_cons_self) htail)

/-! ### The reader -/

/-- The reader of such a pattern, with the terms so far: it is in no bracket, and whatever is
still pending will not be quantified. -/
structure Holds (s : Reader) (terms : List Regex) (marks : ℕ) : Prop where
  settled : s.frame.settle = ⟨[], terms, .none⟩
  outer : s.outer = []
  marks : s.marks = marks

section Reading

variable {s : Reader} {terms : List Regex} {marks : ℕ}

theorem Holds.readAtom (h : Holds s terms marks) (r : Regex) :
    ∃ s', s.read (.atom r) = .ok s' ∧ Holds s' (terms ++ [r]) marks := by
  refine ⟨_, rfl, ?_, h.outer, h.marks⟩
  simp [Frame.settle_addAtom, h.settled, Frame.add]

theorem Holds.readAssertion (h : Holds s terms marks) (r : Regex) :
    ∃ s', s.read (.assertion r) = .ok s' ∧ Holds s' (terms ++ [r]) marks := by
  refine ⟨_, rfl, ?_, h.outer, h.marks⟩
  simp [Frame.settle_addAssertion, h.settled, Frame.add]

theorem Holds.readText (h : Holds s terms marks) (l : Text) :
    ∃ s', (l.map fun c => Token.atom (.char c)).foldlM Reader.read s = .ok s' ∧
      Holds s' (terms ++ l.map .char) marks := by
  induction l generalizing s terms with
  | nil => exact ⟨s, rfl, by simpa using h⟩
  | cons c l ih =>
    obtain ⟨u, hu, hu'⟩ := h.readAtom (.char c)
    obtain ⟨s', hs', hs''⟩ := ih hu'
    refine ⟨s', ?_, by simpa using hs''⟩
    rw [List.map_cons, List.foldlM_cons, hu]
    exact hs'

theorem Holds.readGroup (h : Holds s terms marks) (stop : UInt8) :
    ∃ s', (groupTokens stop).foldlM Reader.read s = .ok s' ∧
      Holds s' (terms ++ [someExcept [.single stop] (marks + 1)]) (marks + 1) := by
  refine ⟨_, rfl, ?_, h.outer, by rw [h.marks]⟩
  simp only [Reader.closeBracket, Frame.settle_addAtom, h.settled, h.marks]
  rfl

theorem Holds.readGroups (h : Holds s terms marks) (stop : UInt8) (rest : List Text) :
    ∃ s', (rest.flatMap fun l => groupTokens stop ++ l.map fun c => .atom (.char c)).foldlM
        Reader.read s = .ok s' ∧
      Holds s' (terms ++ groupTerms stop (marks + 1) rest) (marks + rest.length) := by
  induction rest generalizing s terms marks with
  | nil => exact ⟨s, rfl, by simpa [groupTerms] using h⟩
  | cons l rest ih =>
    obtain ⟨u, hu, hgroup⟩ := h.readGroup stop
    obtain ⟨v, hv, htext⟩ := hgroup.readText l
    obtain ⟨s', hs', hall⟩ := ih htext
    refine ⟨s', ?_, ?_⟩
    · rw [List.flatMap_cons, List.foldlM_append, List.foldlM_append, hu]
      change (List.foldlM _ u _ >>= _) = _
      rw [hv]
      exact hs'
    · simpa [groupTerms, Nat.add_comm, Nat.add_left_comm] using hall

end Reading

/-! ### Compilation -/

theorem maxBackref_sequence {terms : List Regex} (h : ∀ r ∈ terms, r.maxBackref = 0) :
    (sequence terms).maxBackref = 0 := by
  induction terms with
  | nil => rfl
  | cons r terms ih =>
    simp [sequence_cons, maxBackref, h r List.mem_cons_self,
      ih fun r hr => h r (List.mem_cons_of_mem _ hr)]

theorem maxBackref_groupTerms (index : ℕ) :
    ∀ r ∈ groupTerms stop index rest, r.maxBackref = 0 := by
  induction rest generalizing index with
  | nil => simp [groupTerms]
  | cons l rest ih =>
    simp only [groupTerms, List.mem_cons, List.mem_append, List.mem_map]
    rintro r (rfl | ⟨c, _, rfl⟩ | hr)
    · rfl
    · rfl
    · exact ih _ r hr

theorem maxBackref_plainRegex : (plainRegex stop first rest).maxBackref = 0 := by
  refine maxBackref_sequence ?_
  simp only [List.mem_cons, List.mem_append, List.mem_map, List.not_mem_nil, or_false]
  rintro r (rfl | ⟨c, _, rfl⟩ | hr | rfl)
  · rfl
  · rfl
  · exact maxBackref_groupTerms 1 r hr
  · rfl

/-- The tokens of such a pattern. -/
def plainTokens (stop : UInt8) (first : Text) (rest : List Text) : List Token :=
  .assertion .lineStart :: (first.map (fun c => .atom (.char c)) ++
    (rest.flatMap (fun l => groupTokens stop ++ l.map fun c => .atom (.char c)) ++
      [.assertion .lineEnd]))

theorem lexes_plainPattern (hstop : stop ∉ syntaxCharacters) (hfirst : PlainText first)
    (hrest : ∀ l ∈ rest, PlainText l) :
    Lexes (plainPattern stop first rest) (plainTokens stop first rest) := by
  have hend : Lexes (ascii "$") [.assertion .lineEnd] := lexes_cons rfl le_rfl lexes_nil
  have hall := lexes_plain hfirst (lexes_groups hstop hrest hend)
  have hpattern : plainPattern stop first rest =
      '^'.toUInt8 :: (first ++ (rest.flatMap (groupPattern stop ++ ·) ++ ascii "$")) := by
    simp [plainPattern, ascii]
  rw [hpattern]
  exact lexes_cons rfl le_rfl hall

theorem read_plainTokens (stop : UInt8) (first : Text) (rest : List Text) :
    ∃ s, (plainTokens stop first rest).foldlM Reader.read Reader.new = .ok s ∧
      Holds s (.lineStart :: (first.map .char ++ (groupTerms stop 1 rest ++ [.lineEnd])))
        rest.length := by
  have hnew : Holds Reader.new [] 0 := ⟨rfl, rfl, rfl⟩
  obtain ⟨s₁, h₁, hstart⟩ := hnew.readAssertion .lineStart
  obtain ⟨s₂, h₂, htext⟩ := hstart.readText first
  obtain ⟨s₃, h₃, hgroups⟩ := htext.readGroups stop rest
  obtain ⟨s₄, h₄, hend⟩ := hgroups.readAssertion .lineEnd
  refine ⟨s₄, ?_, by simpa using hend⟩
  rw [plainTokens, List.foldlM_cons, h₁]
  change List.foldlM _ s₁ _ = _
  rw [List.foldlM_append, h₂]
  change List.foldlM _ s₂ _ = _
  rw [List.foldlM_append, h₃]
  change List.foldlM _ s₃ _ = _
  rw [List.foldlM_cons, h₄]
  rfl

theorem Holds.regex {s : Reader} {terms : List Regex} {marks : ℕ} (h : Holds s terms marks) :
    s.frame.regex = sequence terms := by
  have halternatives : s.frame.alternatives = [] := by
    simpa using congrArg Frame.alternatives h.settled
  simp [Frame.regex, halternatives, h.settled]

/-- The pattern is accepted, and its tree is the one meant. -/
theorem compile_plainPattern (hstop : stop ∉ syntaxCharacters) (hfirst : PlainText first)
    (hrest : ∀ l ∈ rest, PlainText l) :
    compile (plainPattern stop first rest) = .ok ⟨plainRegex stop first rest, rest.length⟩ := by
  obtain ⟨s, hread, hs⟩ := read_plainTokens stop first rest
  have hregex : s.frame.regex = plainRegex stop first rest := hs.regex
  rw [compile, lexes_plainPattern hstop hfirst hrest _ le_rfl]
  change (List.foldlM Reader.read Reader.new _ >>= Reader.finish) = _
  rw [hread]
  change s.finish = _
  simp [Reader.finish, hs.outer, hs.marks, hregex, maxBackref_plainRegex]

/-! ### Matching -/

/-- What has to follow a pattern in a match of the whole text. -/
def atEnd : Continuation := fun y caps => if y.after = [] then some (y, caps) else none

theorem split_of_matchAt {index : ℕ} {before t : Text} {caps : Captures}
    {result : Cursor × Captures}
    (h : matchAt (sequence (groupTerms stop index rest ++ [.lineEnd])) ⟨before, t⟩ caps atEnd =
      some result) :
    ∃ parts, Split stop [] rest t parts ∧
      (∀ j (hj : j < parts.length), result.2 (index + j) = some parts[j]) ∧
      ∀ i < index, result.2 i = caps i := by
  induction rest generalizing index before t caps with
  | nil =>
    simp only [groupTerms, List.nil_append, sequence_cons, sequence_nil, matchAt_seq, matchAt,
      atEnd] at h
    split_ifs at h with ht
    obtain rfl := Option.some.inj h
    exact ⟨[], ⟨rfl, ht, by simp⟩, by simp, fun _ _ => rfl⟩
  | cons l rest ih =>
    rw [groupTerms, List.cons_append, List.append_assoc, sequence_cons, matchAt_seq] at h
    obtain ⟨part, t', rfl, hne, hpart, hbehind⟩ := exists_of_matchAt_someExcept h
    obtain ⟨t'', rfl, hrest⟩ := prefix_of_matchAt_text hbehind
    obtain ⟨parts, hsplit, hcaptured, hframe⟩ := ih hrest
    have hstop : stop ∉ part := forall_not_contains_single.mp hpart
    refine ⟨part :: parts, ⟨by simp [hsplit.length], ?_, ?_⟩, ?_, ?_⟩
    · have htext := hsplit.text
      simp only [List.nil_append] at htext
      simp [htext]
    · exact List.forall_mem_cons.mpr ⟨⟨hne, hstop⟩, hsplit.part⟩
    · intro j hj
      cases j with
      | zero => simpa using hframe index (Nat.lt_succ_self _)
      | succ j =>
        have hj' := hcaptured j (Nat.lt_of_succ_lt_succ hj)
        rwa [Nat.add_right_comm] at hj'
    · intro i hi
      rw [hframe i (Nat.lt_succ_of_lt hi), Function.update_of_ne hi.ne]

theorem matchAt_ne_none_of_split {index : ℕ} {before t : Text} {caps : Captures}
    {parts : List Text} (h : Split stop [] rest t parts) :
    matchAt (sequence (groupTerms stop index rest ++ [.lineEnd])) ⟨before, t⟩ caps atEnd ≠
      none := by
  induction rest generalizing index before t caps parts with
  | nil =>
    have ht : t = [] := by simpa using h.text
    simp [groupTerms, matchAt, atEnd, ht]
  | cons l rest ih =>
    cases parts with
    | nil => exact absurd h.length (by simp)
    | cons part parts =>
      obtain ⟨⟨hne, hstop⟩, hparts⟩ := List.forall_mem_cons.mp h.part
      have ht : t = part ++ (l ++ (parts.zip rest).flatMap fun e => e.1 ++ e.2) := by
        simpa using h.text
      have htail : Split stop [] rest ((parts.zip rest).flatMap fun e => e.1 ++ e.2) parts :=
        ⟨by simpa using h.length, rfl, hparts⟩
      rw [groupTerms, List.cons_append, List.append_assoc, sequence_cons, matchAt_seq, ht]
      refine matchAt_someExcept_ne_none hne (forall_not_contains_single.mpr hstop) ?_
      rw [matchAt_text]
      exact ih htail

theorem regexMatch_plain (s : Text) :
    regexMatch (plainRegex stop first rest) s =
      (matchAt (sequence (first.map .char ++ (groupTerms stop 1 rest ++ [.lineEnd]))) ⟨[], s⟩
        noCaptures atEnd).map Prod.snd := rfl

/-- A match captures the parts of a split. -/
theorem split_of_regexMatch {s : Text} {caps : Captures}
    (h : regexMatch (plainRegex stop first rest) s = some caps) :
    ∃ parts, Split stop first rest s parts ∧
      ∀ j (hj : j < parts.length), caps (j + 1) = some parts[j] := by
  rw [regexMatch_plain] at h
  obtain ⟨result, hresult, rfl⟩ := Option.map_eq_some_iff.mp h
  obtain ⟨t, rfl, hgroups⟩ := prefix_of_matchAt_text hresult
  obtain ⟨parts, hsplit, hcaptured, -⟩ := split_of_matchAt hgroups
  refine ⟨parts, ⟨hsplit.length, by rw [hsplit.text]; rfl, hsplit.part⟩, fun j hj => ?_⟩
  rw [Nat.add_comm]
  exact hcaptured j hj

/-- The pattern matches exactly the texts that split. -/
theorem regexMatch_plain_isSome {s : Text} :
    (regexMatch (plainRegex stop first rest) s).isSome ↔
      ∃ parts, Split stop first rest s parts := by
  constructor
  · intro h
    obtain ⟨caps, hcaps⟩ := Option.isSome_iff_exists.mp h
    obtain ⟨parts, hsplit, -⟩ := split_of_regexMatch hcaps
    exact ⟨parts, hsplit⟩
  · rintro ⟨parts, hsplit⟩
    have hgroups : Split stop [] rest ((parts.zip rest).flatMap fun e => e.1 ++ e.2) parts :=
      ⟨hsplit.length, rfl, hsplit.part⟩
    rw [regexMatch_plain, Option.isSome_map, hsplit.text, matchAt_text]
    exact Option.isSome_iff_ne_none.mpr (matchAt_ne_none_of_split hgroups)

/-! ### Separated groups -/

/-- A group ends where a stop character follows or the pattern does. -/
def Separated (stop : UInt8) : List Text → Prop
  | [] => True
  | [l] => l = [] ∨ l.head? = some stop
  | l :: l' :: rest => l.head? = some stop ∧ Separated stop (l' :: rest)

theorem Separated.tail {l : Text} (h : Separated stop (l :: rest)) : Separated stop rest := by
  cases rest with
  | nil => exact trivial
  | cons l' rest => exact h.2

/-- The first part ends at the first stop character, wherever the others end. -/
theorem Separated.first_part {l p p' more more' : Text} (h : Separated stop (l :: rest))
    (hmore : rest = [] → more = [] ∧ more' = []) (hp : stop ∉ p) (hp' : stop ∉ p')
    (htext : p ++ l ++ more = p' ++ l ++ more') : p = p' ∧ more = more' := by
  have hstop : l.head? = some stop → p = p' ∧ more = more' := by
    intro hl
    obtain ⟨l, rfl⟩ := List.head?_eq_some_iff.mp hl
    rw [List.append_assoc, List.append_assoc] at htext
    obtain ⟨rfl, hrest⟩ := append_mark_inj hp hp' htext
    exact ⟨rfl, List.append_cancel_left hrest⟩
  cases rest with
  | cons l' rest => exact hstop h.1
  | nil =>
    obtain ⟨rfl, rfl⟩ := hmore rfl
    rcases h with rfl | hl
    · exact ⟨by simpa using htext, rfl⟩
    · exact hstop hl

theorem Separated.parts_unique {parts parts' : List Text} (hsep : Separated stop rest)
    (hlength : parts.length = rest.length) (hlength' : parts'.length = rest.length)
    (hstop : ∀ p ∈ parts, stop ∉ p) (hstop' : ∀ p ∈ parts', stop ∉ p)
    (htext : ((parts.zip rest).flatMap fun e => e.1 ++ e.2) =
      (parts'.zip rest).flatMap fun e => e.1 ++ e.2) : parts = parts' := by
  induction rest generalizing parts parts' with
  | nil => rw [List.length_eq_zero_iff.mp hlength, List.length_eq_zero_iff.mp hlength']
  | cons l rest ih =>
    obtain ⟨p, parts, rfl⟩ := List.exists_cons_of_length_eq_add_one hlength
    obtain ⟨p', parts', rfl⟩ := List.exists_cons_of_length_eq_add_one hlength'
    obtain ⟨hp, hparts⟩ := List.forall_mem_cons.mp hstop
    obtain ⟨hp', hparts'⟩ := List.forall_mem_cons.mp hstop'
    rw [List.zip_cons_cons, List.zip_cons_cons, List.flatMap_cons, List.flatMap_cons] at htext
    obtain ⟨rfl, hmore⟩ := hsep.first_part (by rintro rfl; simp) hp hp' htext
    rw [ih hsep.tail (Nat.succ.inj hlength) (Nat.succ.inj hlength') hparts hparts' hmore]

/-- A text splits in one way only if the groups are separated. -/
theorem Split.unique {s : Text} {parts parts' : List Text} (hsep : Separated stop rest)
    (h : Split stop first rest s parts) (h' : Split stop first rest s parts') :
    parts = parts' :=
  hsep.parts_unique h.length h'.length (fun p hp => (h.part p hp).2)
    (fun p hp => (h'.part p hp).2) (List.append_cancel_left (h.text.symm.trans h'.text))

end Demiplane.Regex

import Demiplane.Sql.Lexer

/-!
Parentheses in sequences of tokens.
-/

namespace Demiplane.Sql

abbrev openParen : Token := .punctuation 40
abbrev closeParen : Token := .punctuation 41

/-- How deep in parentheses the tokens end that begin at depth `d`. A token for which
`stop` holds has to be inside of parentheses. -/
def depthAfter (stop : Token → Bool) : ℕ → List Token → Option ℕ
  | d, [] => some d
  | d, t :: ts =>
      if stop t && d == 0 then none
      else if t = openParen then depthAfter stop (d + 1) ts
      else if t = closeParen then
        match d with
        | 0 => none
        | d + 1 => depthAfter stop d ts
      else depthAfter stop d ts

def anywhere (_ : Token) : Bool := false

section

variable {stop : Token → Bool} {d e : ℕ} {t : Token} {ts us : List Token}

theorem depthAfter_append (d : ℕ) (ts us : List Token) :
    depthAfter stop d (ts ++ us) = (depthAfter stop d ts).bind fun e => depthAfter stop e us := by
  induction ts generalizing d with
  | nil => rfl
  | cons t ts ih =>
    simp only [List.cons_append, depthAfter]
    split_ifs
    · rfl
    · exact ih _
    · cases d with
      | zero => rfl
      | succ d => exact ih d
    · exact ih d

/-- Inside of parentheses every token may stand. -/
theorem depthAfter_deep (h : depthAfter anywhere d ts = some e) (n : ℕ) :
    depthAfter stop (d + n + 1) ts = some (e + n + 1) := by
  induction ts generalizing d with
  | nil =>
    obtain rfl := Option.some.inj h
    rfl
  | cons t ts ih =>
    have hstop : (stop t && d + n + 1 == 0) = false := by simp
    simp only [depthAfter, anywhere, Bool.false_and, Bool.false_eq_true, if_false] at h
    simp only [depthAfter, hstop, Bool.false_eq_true, if_false]
    split_ifs at h ⊢
    · have := ih h
      rwa [show d + 1 + n + 1 = d + n + 1 + 1 by omega] at this
    · cases d with
      | zero => cases h
      | succ d =>
        have := ih h
        rwa [show d + 1 + n = d + n + 1 by omega]
    · exact ih h

end

end Demiplane.Sql

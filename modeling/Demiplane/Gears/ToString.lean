import Demiplane.Text.Decimal

/-!
`gears::constexpr_to_string` for integers, which writes two digits at a time from a
table into a buffer, the last digit first.
-/

namespace Demiplane.Gears

open Text

/-- The tens digit of `i` at `2 * i` and its units digit behind it. -/
def digits : Text :=
  ascii "00010203040506070809" ++ ascii "10111213141516171819" ++ ascii "20212223242526272829" ++
  ascii "30313233343536373839" ++ ascii "40414243444546474849" ++ ascii "50515253545556575859" ++
  ascii "60616263646566676869" ++ ascii "70717273747576777879" ++ ascii "80818283848586878889" ++
  ascii "90919293949596979899"

/-- What the two writes behind `idx` put into the buffer. -/
def pair (idx : ℕ) : Text := [digits.getD (idx + 1) 0, digits.getD idx 0]

/-- The loop, which leaves the buffer and what is left of the number. It takes a digit
or more from the number in each round, so that the number itself bounds its rounds. -/
def takePairs : ℕ → Text → ℕ → Text × ℕ
  | 0, buffer, temp => (buffer, temp)
  | rounds + 1, buffer, temp =>
      if 100 ≤ temp then takePairs rounds (buffer ++ pair (temp % 100 * 2)) (temp / 100)
      else (buffer, temp)

def constexprToString (value : ℕ) : Text :=
  if value = 0 then ascii "0"
  else
    let (buffer, temp) := takePairs value [] value
    let buffer :=
      if 10 ≤ temp then buffer ++ pair (temp * 2) else buffer ++ [UInt8.ofNat (48 + temp)]
    buffer.reverse

theorem digits_eq :
    digits = (List.range 100).flatMap fun i => [digit (i / 10), digit (i % 10)] := by
  decide +kernel

theorem pair_eq {i : ℕ} (h : i < 100) : pair (i * 2) = [digit (i % 10), digit (i / 10)] := by
  have hall : ∀ i : Fin 100, pair (i * 2) = [digit (i % 10), digit (i / 10)] := by
    unfold pair
    rw [digits_eq]
    decide +kernel
  exact hall ⟨i, h⟩

theorem map_digits_pair {temp : ℕ} (h : 100 ≤ temp) :
    (Nat.digits 10 temp).map digit =
      pair (temp % 100 * 2) ++ (Nat.digits 10 (temp / 100)).map digit := by
  have hunits : temp % 100 % 10 = temp % 10 := by omega
  have htens : temp % 100 / 10 = temp / 10 % 10 := by omega
  have hrest : temp / 10 / 10 = temp / 100 := by omega
  rw [Nat.digits_def' (by omega) (by omega), Nat.digits_def' (by omega) (by omega : 0 < temp / 10),
    pair_eq (Nat.mod_lt _ (by omega)), hunits, htens, hrest]
  rfl

/-- The buffer and the digits of what is left are the digits of the number, in every
round; after the last one there are at most two digits left. -/
theorem takePairs_spec (rounds : ℕ) (buffer : Text) (temp : ℕ) (hpos : 0 < temp)
    (hrounds : temp ≤ rounds) :
    (takePairs rounds buffer temp).1 ++ (Nat.digits 10 (takePairs rounds buffer temp).2).map digit =
        buffer ++ (Nat.digits 10 temp).map digit ∧
      0 < (takePairs rounds buffer temp).2 ∧ (takePairs rounds buffer temp).2 < 100 := by
  induction rounds generalizing buffer temp with
  | zero => omega
  | succ rounds ih =>
    unfold takePairs
    split_ifs with h
    · obtain ⟨hdigits, hbounds⟩ :=
        ih (buffer ++ pair (temp % 100 * 2)) (temp / 100) (by omega) (by omega)
      refine ⟨?_, hbounds⟩
      rw [hdigits, map_digits_pair h, List.append_assoc]
    · exact ⟨rfl, hpos, by omega⟩

theorem constexprToString_eq (value : ℕ) : constexprToString value = decimal value := by
  unfold constexprToString decimal
  split_ifs with h
  · rfl
  obtain ⟨hdigits, hpos, hlt⟩ :=
    takePairs_spec value [] value (Nat.pos_of_ne_zero h) le_rfl
  rw [List.nil_append] at hdigits
  rw [← hdigits]
  generalize takePairs value [] value = left at hpos hlt
  obtain ⟨buffer, temp⟩ := left
  simp only at hpos hlt ⊢
  congr 1
  split_ifs with hten
  · rw [pair_eq hlt, Nat.digits_def' (by omega) hpos,
      Nat.digits_of_lt 10 (temp / 10) (by omega) (by omega)]
    rfl
  · rw [Nat.digits_of_lt 10 temp (by omega) (by omega)]
    rfl

end Demiplane.Gears

import Demiplane.Buffer.Writer
import Demiplane.Gears.ToString
import Demiplane.Text.Numerals

/-!
`gears::constexpr_to_string` over the machine's own types: a number of 64 bits, and a buffer of
twenty bytes with the position of the next write. At every round of the loop the buffer has room
for the digits that are still to come, so that the function does what the one over an unbounded
buffer does.
-/

namespace Demiplane.Gears

open Text Buffer

/-- `buffer` and `pos`. -/
abbrev DigitBuffer := Writer UInt8 20

namespace DigitBuffer

/-- The two writes behind `idx`, the units and then the tens. -/
def putPair (w : DigitBuffer) (idx : UInt64) : Option DigitBuffer := do
  let w ← w.put (← digits[(idx + 1).toNat]?)
  w.put (← digits[idx.toNat]?)

def takePairs (w : DigitBuffer) (temp : UInt64) : Option (DigitBuffer × UInt64) :=
  if 100 ≤ temp then do
    let w ← putPair w (temp % 100 * 2)
    takePairs w (temp / 100)
  else some (w, temp)
termination_by temp.toNat
decreasing_by
  rename_i h
  rw [UInt64.le_iff_toNat_le] at h
  rw [UInt64.toNat_div]
  exact Nat.div_lt_self (Nat.lt_of_lt_of_le (by decide) h) (by decide)

/-- All writes, up to the last digit. -/
def fill (value : UInt64) : Option DigitBuffer := do
  let (w, temp) ← takePairs (Writer.empty 20 0) value
  if 10 ≤ temp then putPair w (temp * 2) else w.put (48 + temp).toUInt8

/-- There is no result if a read or a write leaves its array. -/
def constexprToString (value : UInt64) : Option Text :=
  if value = 0 then some (ascii "0")
  else do
    let w ← fill value
    readBack w.cells w.pos []

/-! ### The buffer is long enough -/

theorem digits_getElem? {k : ℕ} (h : k < 200) : digits[k]? = some (digits.getD k 0) := by
  have hlength : digits.length = 200 := by decide +kernel
  rw [List.getD_eq_getElem?_getD, List.getElem?_eq_getElem (hlength ▸ h), Option.getD_some]

/-- The table has an entry for every number below 100, and the buffer takes its two digits. -/
theorem putPair_of_holds {w : DigitBuffer} {buffer : Text} (h : w.Holds buffer)
    (hroom : buffer.length + 2 ≤ 20) (i : UInt64) (hi : i.toNat < 100) :
    ∃ w', putPair w (i * 2) = some w' ∧ w'.Holds (buffer ++ pair (i.toNat * 2)) := by
  have htens : (i * 2).toNat = i.toNat * 2 := by
    rw [UInt64.toNat_mul]
    exact Nat.mod_eq_of_lt (by change i.toNat * 2 < _; omega)
  have hunits : (i * 2 + 1).toNat = i.toNat * 2 + 1 := by
    rw [UInt64.toNat_add, UInt64.toNat_one, htens]
    exact Nat.mod_eq_of_lt (by omega)
  obtain ⟨w₁, hput₁, h₁⟩ := h.put (by omega) (digits.getD (i.toNat * 2 + 1) 0)
  obtain ⟨w₂, hput₂, h₂⟩ := h₁.put (by simp; omega) (digits.getD (i.toNat * 2) 0)
  refine ⟨w₂, ?_, ?_⟩
  · rw [putPair, hunits, htens, digits_getElem? (by omega), digits_getElem? (by omega)]
    simp only [Option.bind_eq_bind, Option.bind_some, hput₁, hput₂]
  · rwa [List.append_assoc] at h₂

/-- A state of the loop and the one of the loop over an unbounded buffer that it is in step
with. There is room for as many digits as the number may still have. -/
structure Fits (w : DigitBuffer) (temp : UInt64) (left : Text × ℕ) : Prop where
  holds : w.Holds left.1
  temp_eq : temp.toNat = left.2
  room : ∃ room, left.1.length + room ≤ 20 ∧ left.2 < 10 ^ room

theorem fits_empty (value : UInt64) : Fits (Writer.empty 20 0) value ([], value.toNat) where
  holds := Writer.holds_empty 20 0
  temp_eq := rfl
  room := ⟨20, le_rfl, value.toNat_lt.trans (by decide)⟩

/-- A number from `10 ^ k` on has more than `k` digits. -/
theorem lt_room {n k room : ℕ} (hk : 10 ^ k ≤ n) (hlt : n < 10 ^ room) : k < room :=
  (Nat.pow_lt_pow_iff_right (by decide)).mp (lt_of_le_of_lt hk hlt)

theorem Fits.le_iff {w : DigitBuffer} {temp : UInt64} {left : Text × ℕ} (h : Fits w temp left)
    (bound : UInt64) : bound ≤ temp ↔ bound.toNat ≤ left.2 := by
  rw [UInt64.le_iff_toNat_le, h.temp_eq]

theorem Fits.round {w : DigitBuffer} {temp : UInt64} {buffer : Text} {n : ℕ}
    (h : Fits w temp (buffer, n)) (hmore : 100 ≤ n) :
    ∃ w', putPair w (temp % 100 * 2) = some w' ∧
      Fits w' (temp / 100) (buffer ++ pair (n % 100 * 2), n / 100) := by
  obtain ⟨hholds, htemp, room, hroom, hlt⟩ := h
  simp only at hholds htemp hroom hlt
  have hmod : (temp % 100).toNat = n % 100 := by
    rw [UInt64.toNat_mod, htemp]
    rfl
  have htwo : 2 < room := lt_room hmore hlt
  obtain ⟨room, rfl⟩ := Nat.exists_eq_add_of_le' htwo.le
  obtain ⟨w', hput, hholds'⟩ :=
    putPair_of_holds hholds (by omega) (temp % 100) (by omega)
  refine ⟨w', hput, hmod ▸ hholds', ?_, room, ?_, ?_⟩
  · rw [UInt64.toNat_div, htemp]
    rfl
  · simp [pair]
    omega
  · rw [pow_succ', pow_succ'] at hlt
    exact Nat.div_lt_of_lt_mul (by omega)

/-- The loop ends, and has not left the buffer. -/
theorem takePairs_of_fits (rounds : ℕ) {w : DigitBuffer} {temp : UInt64} {buffer : Text} {n : ℕ}
    (h : Fits w temp (buffer, n)) (hrounds : n ≤ rounds) :
    ∃ w' temp', takePairs w temp = some (w', temp') ∧
      Fits w' temp' (Gears.takePairs rounds buffer n) := by
  induction rounds generalizing w temp buffer n with
  | zero =>
    have hend : ¬ 100 ≤ temp := by
      rw [h.le_iff]
      change ¬ 100 ≤ n
      omega
    exact ⟨w, temp, by rw [takePairs, if_neg hend], h⟩
  | succ rounds ih =>
    rw [takePairs, Gears.takePairs]
    by_cases hmore : 100 ≤ n
    · obtain ⟨w₁, hput, h₁⟩ := h.round hmore
      obtain ⟨w', temp', htake, h'⟩ := ih h₁ (by omega)
      rw [if_pos ((h.le_iff 100).mpr hmore), if_pos hmore, hput]
      exact ⟨w', temp', htake, h'⟩
    · rw [if_neg (mt (h.le_iff 100).mp hmore), if_neg hmore]
      exact ⟨w, temp, rfl, h⟩

/-- The digit or the two digits behind the loop. -/
theorem Fits.last {w : DigitBuffer} {temp : UInt64} {buffer : Text} {n : ℕ}
    (h : Fits w temp (buffer, n)) (hpos : 0 < n) (hlt : n < 100) :
    ∃ w', (if 10 ≤ temp then putPair w (temp * 2) else w.put (48 + temp).toUInt8) = some w' ∧
      w'.Holds (if 10 ≤ n then buffer ++ pair (n * 2) else buffer ++ [UInt8.ofNat (48 + n)]) := by
  have hten := h.le_iff 10
  obtain ⟨hholds, htemp, room, hroom, hdigits⟩ := h
  simp only at hholds htemp hroom hdigits
  by_cases h10 : 10 ≤ n
  · have htwo : 1 < room := lt_room h10 hdigits
    rw [if_pos (hten.mpr h10), if_pos h10, ← htemp]
    exact putPair_of_holds hholds (by omega) temp (by omega)
  · have hbyte : (48 + temp).toUInt8 = UInt8.ofNat (48 + n) := by
      have hnat : (48 + temp).toNat = 48 + n := by
        rw [UInt64.toNat_add, htemp]
        exact Nat.mod_eq_of_lt (by change 48 + n < _; omega)
      rw [← hnat]
      rfl
    have hone : 0 < room := lt_room hpos hdigits
    rw [if_neg (mt hten.mp h10), if_neg h10, hbyte]
    exact hholds.put (by omega) _

theorem fill_holds {value : UInt64} (hne : value ≠ 0) :
    ∃ w, fill value = some w ∧ w.Holds (Gears.constexprToString value.toNat).reverse := by
  have hpos : 0 < value.toNat := Nat.pos_of_ne_zero fun hzero =>
    hne (UInt64.toNat_inj.mp hzero)
  obtain ⟨-, hleft, hlt⟩ := takePairs_spec value.toNat [] value.toNat hpos le_rfl
  obtain ⟨w, temp, htake, hfits⟩ := takePairs_of_fits value.toNat (fits_empty value) le_rfl
  rw [Gears.constexprToString, if_neg hpos.ne']
  generalize Gears.takePairs value.toNat [] value.toNat = left at hleft hlt hfits
  obtain ⟨buffer, n⟩ := left
  obtain ⟨w', hlast, hholds⟩ := hfits.last hleft hlt
  refine ⟨w', ?_, ?_⟩
  · rw [fill, htake]
    exact hlast
  · rwa [List.reverse_reverse]

/-- The function is the one over an unbounded buffer. -/
theorem constexprToString_eq (value : UInt64) :
    constexprToString value = some (Gears.constexprToString value.toNat) := by
  unfold constexprToString
  split_ifs with h
  · subst h
    rfl
  · obtain ⟨w, hfill, hholds⟩ := fill_holds h
    rw [hfill]
    change readBack w.cells w.pos [] = _
    rw [hholds.readBack, List.reverse_reverse]

/-- Every number of 64 bits is printed as its only numeral, and no write leaves the buffer. -/
theorem constexprToString_prints (value : UInt64) :
    ∃ text, constexprToString value = some text ∧ IsNumeral text ∧ number text = value.toNat ∧
      (∀ t, IsNumeral t → number t = value.toNat → t = text) ∧
      (value ≠ 0 → ∃ w, fill value = some w ∧ w.pos = text.length ∧ w.pos ≤ 20) := by
  have heq : Gears.constexprToString value.toNat = decimal value.toNat :=
    Gears.constexprToString_eq value.toNat
  refine ⟨decimal value.toNat, ?_, isNumeral_decimal _, number_decimal _, ?_, ?_⟩
  · rw [constexprToString_eq, heq]
  · intro t ht hnumber
    rw [ht.eq_decimal, hnumber]
  · intro hne
    obtain ⟨w, hfill, hholds⟩ := fill_holds hne
    rw [heq] at hholds
    have hpos := hholds.pos_eq
    rw [List.length_reverse] at hpos
    exact ⟨w, hfill, hpos, hholds.pos_eq ▸ hholds.length_le⟩

-- the largest number takes the whole buffer
example : ∃ w, fill 18446744073709551615 = some w ∧ w.pos = 20 := by
  obtain ⟨w, hfill, hholds⟩ := fill_holds (show (18446744073709551615 : UInt64) ≠ 0 by decide)
  exact ⟨w, hfill, hholds.pos_eq.trans rfl⟩

end DigitBuffer

end Demiplane.Gears

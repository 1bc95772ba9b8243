import Demiplane.Postgres.ResultViews

/-!
Bytes as hexadecimal digits: what `format_binary_data` writes is what `decode_hex_bytea`
reads, but the decoder also takes texts that are not digits throughout. It reads two
characters at a time with `std::from_chars`, which is content with one digit.
-/

namespace Demiplane.Postgres

open Text Query FieldView

def isHexDigit (c : UInt8) : Bool := (hexValue c).isSome

/-- `\x` and an even number of hexadecimal digits. -/
def IsHexText (t : Text) : Prop :=
  ∃ digits, t = ascii "\\x" ++ digits ∧ Even digits.length ∧ ∀ c ∈ digits, isHexDigit c = true

/-- The bytes that pairs of digits denote. -/
def denoted : Text → List UInt8
  | high :: low :: rest =>
      UInt8.ofNat (16 * (hexValue high).getD 0 + (hexValue low).getD 0) :: denoted rest
  | _ => []

/-- Each pair of characters begins with a digit, and so does what is left of an odd number. -/
def digitsLead : Text → Bool
  | [] => true
  | [high] => isHexDigit high
  | high :: _ :: rest => isHexDigit high && digitsLead rest

/-- The texts that the decoder takes. -/
def Leading (t : Text) : Prop := ∃ rest, t = ascii "\\x" ++ rest ∧ digitsLead rest = true

/-- What the text between the apostrophes of a constant is. -/
def unquoted (t : Text) : Text := t.tail.dropLast

/-- The decoder takes the text exactly if it is hexadecimal, and then reads its bytes. -/
def Faithful (fv : FieldView) : Prop :=
  ((∃ bytes, fv.decodeHexBytea = .ok bytes) ↔ IsHexText fv.bytes) ∧
    ∀ digits, fv.bytes = ascii "\\x" ++ digits → IsHexText fv.bytes →
      fv.decodeHexBytea = .ok (denoted digits)

/-! ### One pair -/

theorem fromHexChars_hexChar (byte : UInt8) :
    fromHexChars (hexChar (byte >>> 4)) (hexChar (byte &&& 0x0F)) = some byte := by
  refine forall_byte ?_ byte
  decide +kernel

theorem fromHexChars_isSome (high low : UInt8) :
    (fromHexChars high low).isSome = isHexDigit high := by
  unfold fromHexChars isHexDigit
  cases hexValue high <;> cases hexValue low <;> rfl

theorem fromHexChars_digits {high low : UInt8} (hhigh : isHexDigit high = true)
    (hlow : isHexDigit low = true) :
    fromHexChars high low =
      some (UInt8.ofNat (16 * (hexValue high).getD 0 + (hexValue low).getD 0)) := by
  obtain ⟨h, hh⟩ := Option.isSome_iff_exists.mp hhigh
  obtain ⟨l, hl⟩ := Option.isSome_iff_exists.mp hlow
  simp [fromHexChars, hh, hl]

/-! ### The loop -/

theorem decodeHexPairs_ok_iff (t : Text) :
    (∃ bytes, decodeHexPairs t = .ok bytes) ↔ digitsLead t = true := by
  fun_induction digitsLead t with
  | case1 => simp [decodeHexPairs]
  | case2 high =>
    rw [← fromHexChars_isSome high 0]
    cases h : fromHexChars high 0 <;> simp [decodeHexPairs, h]
  | case3 high low rest ih =>
    rw [← fromHexChars_isSome high low, Bool.and_eq_true, ← ih]
    cases h : fromHexChars high low with
    | none => simp [decodeHexPairs, h]
    | some byte => cases hrest : decodeHexPairs rest <;> simp [decodeHexPairs, h, hrest, Except.map]

theorem decodeHexPairs_digits {digits : Text} (heven : Even digits.length)
    (hdigits : ∀ c ∈ digits, isHexDigit c = true) :
    decodeHexPairs digits = .ok (denoted digits) := by
  fun_induction denoted digits with
  | case1 high low rest ih =>
    have hrest : Even rest.length := by
      rw [List.length_cons, List.length_cons, Nat.add_assoc, Nat.even_add] at heven
      exact heven.mpr (by decide)
    rw [decodeHexPairs, fromHexChars_digits (hdigits high (by simp)) (hdigits low (by simp)),
      ih hrest fun c hc => hdigits c (by simp [hc])]
    rfl
  | case2 t hshort =>
    cases t with
    | nil => rfl
    | cons c t =>
      cases t with
      | nil => exact absurd heven Nat.not_even_one
      | cons c' t => exact absurd rfl (hshort c c' t)

theorem decodeHexPairs_formatted (data : List UInt8) :
    decodeHexPairs (data.flatMap fun (byte : UInt8) =>
      [hexChar (byte >>> 4), hexChar (byte &&& 0x0F)]) = .ok data := by
  induction data with
  | nil => rfl
  | cons byte data ih =>
    rw [List.flatMap_cons, List.cons_append, List.cons_append, List.nil_append, decodeHexPairs,
      fromHexChars_hexChar, ih]
    rfl

theorem digitsLead_of_digits {digits : Text} (hdigits : ∀ c ∈ digits, isHexDigit c = true) :
    digitsLead digits = true := by
  fun_induction digitsLead digits with
  | case1 => rfl
  | case2 high => exact hdigits high (by simp)
  | case3 high low rest ih =>
    rw [hdigits high (by simp), ih fun c hc => hdigits c (by simp [hc])]
    rfl

/-! ### The decoder -/

theorem decodeHexBytea_eq {fv : FieldView} {rest : Text} (h : fv.bytes = ascii "\\x" ++ rest) :
    fv.decodeHexBytea = decodeHexPairs rest := by
  rw [decodeHexBytea, h]
  rfl

theorem decodeHexBytea_ok_iff (fv : FieldView) :
    (∃ bytes, fv.decodeHexBytea = .ok bytes) ↔ Leading fv.bytes := by
  constructor
  · rintro ⟨bytes, hok⟩
    have hcopy := hok
    unfold decodeHexBytea at hcopy
    split at hcopy
    · rename_i rest hbytes
      refine ⟨rest, hbytes, (decodeHexPairs_ok_iff rest).mp ⟨bytes, hcopy⟩⟩
    · cases hcopy
  · rintro ⟨rest, hbytes, hlead⟩
    rw [decodeHexBytea_eq hbytes]
    exact (decodeHexPairs_ok_iff rest).mpr hlead

theorem IsHexText.leading {t : Text} (h : IsHexText t) : Leading t := by
  obtain ⟨digits, ht, -, hdigits⟩ := h
  exact ⟨digits, ht, digitsLead_of_digits hdigits⟩

/-- What is written is read back, and the decoder is faithful to a text unless the text is
not hexadecimal and has a digit at the start of each of its pairs. -/
theorem hexBytea_faithful_iff (data : List UInt8) (written fv : FieldView) :
    (written.bytes = unquoted (formatBinaryData data) → written.decodeHexBytea = .ok data) ∧
    (Faithful fv ↔ (Leading fv.bytes → IsHexText fv.bytes)) := by
  constructor
  · intro hbytes
    have hunquoted : unquoted (formatBinaryData data) = ascii "\\x" ++
        data.flatMap fun (byte : UInt8) => [hexChar (byte >>> 4), hexChar (byte &&& 0x0F)] :=
      List.dropLast_concat
    rw [decodeHexBytea_eq (hbytes.trans hunquoted)]
    exact decodeHexPairs_formatted data
  · constructor
    · intro hfaithful hleading
      exact hfaithful.1.mp ((decodeHexBytea_ok_iff fv).mpr hleading)
    · intro h
      refine ⟨(decodeHexBytea_ok_iff fv).trans ⟨h, IsHexText.leading⟩, ?_⟩
      rintro digits hbytes ⟨digits', hbytes', heven, hdigits⟩
      obtain rfl := List.append_cancel_left (hbytes.symm.trans hbytes')
      rw [decodeHexBytea_eq hbytes]
      exact decodeHexPairs_digits heven hdigits

/-- `\x1g` is read as the byte 1. -/
theorem not_faithful_oneDigit :
    (FieldView.mk (ascii "\\x1g") false 0 OidTypeRegistry.bytea).decodeHexBytea = .ok [1] ∧
    ¬ IsHexText (ascii "\\x1g") := by
  refine ⟨by decide, ?_⟩
  rintro ⟨digits, ht, -, hdigits⟩
  have ht : ascii "\\x" ++ ascii "1g" = ascii "\\x" ++ digits := ht
  obtain rfl := List.append_cancel_left ht
  exact absurd (hdigits 103 (by decide)) (by decide)

end Demiplane.Postgres

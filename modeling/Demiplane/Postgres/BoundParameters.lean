import Demiplane.Postgres.RoundTrip

/-!
Parameters as they stand in the arrays that libpq is handed: which of them are null, and
what `FieldView::as` reads from the bytes of the others.
-/

namespace Demiplane.Postgres

open Text Query

/-! ### Null pointers -/

/-- A value that is bound as a null pointer: an SQL NULL, and a vector without bytes, of
which `data()` is null. -/
def BindsNull (v : FieldValue) : Prop := v = .monostate ∨ v = .bytes [] ∨ v = .byteSpan []

instance (v : FieldValue) : Decidable (BindsNull v) :=
  inferInstanceAs (Decidable (v = .monostate ∨ v = .bytes [] ∨ v = .byteSpan []))

theorem bindBinary_null_iff (p : Params) (bytes : List UInt8) (oid : ℕ) :
    ∃ pointer, (p.bindBinary bytes oid).values = p.values ++ [pointer] ∧
      (pointer = .null ↔ bytes = []) := by
  refine ⟨_, rfl, ?_⟩
  split_ifs with h <;> simp [h]

theorem bindText_null (p : Params) (str : Text) (oid : ℕ) :
    ∃ pointer, (p.bindText str oid).values = p.values ++ [pointer] ∧ pointer ≠ .null :=
  ⟨_, rfl, nofun⟩

/-- A push adds one pointer, which is null for an SQL NULL and for an empty vector. -/
theorem push_adds_pointer (p : Params) (v : FieldValue) :
    ∃ pointer, (p.push v).1.values = p.values ++ [pointer] ∧
      (pointer = .null ↔ BindsNull v) := by
  unfold BindsNull
  cases v with
  | monostate => exact ⟨.null, rfl, by simp⟩
  | uint64 val =>
    obtain ⟨pointer, hvalues, hnull⟩ := bindText_null p (decimal val.toNat) OidTypeRegistry.numeric
    exact ⟨pointer, hvalues, by simp [hnull]⟩
  | string val =>
    obtain ⟨pointer, hvalues, hnull⟩ := bindText_null p val OidTypeRegistry.text
    exact ⟨pointer, hvalues, by simp [hnull]⟩
  | stringView val =>
    obtain ⟨pointer, hvalues, hnull⟩ := bindText_null p val OidTypeRegistry.text
    exact ⟨pointer, hvalues, by simp [hnull]⟩
  | bytes val =>
    obtain ⟨pointer, hvalues, hnull⟩ := bindBinary_null_iff p val OidTypeRegistry.bytea
    exact ⟨pointer, hvalues, by simp [hnull]⟩
  | byteSpan val =>
    obtain ⟨pointer, hvalues, hnull⟩ := bindBinary_null_iff p val OidTypeRegistry.bytea
    exact ⟨pointer, hvalues, by simp [hnull]⟩
  | _ =>
    -- a vector of a fixed size, which is not empty
    exact ⟨_, rfl, by simp [bigEndian]⟩

/-- The pointer is null for an SQL NULL alone exactly if the value is no empty vector. -/
theorem push_null_iff (p : Params) (v : FieldValue) :
    (∃ pointer, (p.push v).1.values = p.values ++ [pointer] ∧ (pointer = .null ↔ BindsNull v)) ∧
    ((∃ pointer, (p.push v).1.values = p.values ++ [pointer] ∧
        (pointer = .null ↔ v = .monostate)) ↔
      v ≠ .bytes [] ∧ v ≠ .byteSpan []) := by
  obtain ⟨pointer, hvalues, hnull⟩ := push_adds_pointer p v
  refine ⟨⟨pointer, hvalues, hnull⟩, ?_, ?_⟩
  · rintro ⟨pointer', hvalues', hnull'⟩
    obtain rfl : pointer = pointer' := by simpa [hvalues] using hvalues'
    constructor
    · rintro rfl
      exact absurd (hnull'.mp (hnull.mpr (.inr (.inl rfl)))) nofun
    · rintro rfl
      exact absurd (hnull'.mp (hnull.mpr (.inr (.inr rfl)))) nofun
  · rintro ⟨hbytes, hspan⟩
    exact ⟨pointer, hvalues, by simp [hnull, BindsNull, hbytes, hspan]⟩

/-- An empty vector is sent as an SQL NULL. -/
theorem push_empty_null :
    (Params.empty.push (.bytes [])).1.values = [.null] ∧ FieldValue.bytes [] ≠ .monostate :=
  ⟨rfl, nofun⟩

/-! ### Reading an entry -/

/-- A view that is not null of the first `lengths[k]` bytes at `values[k]`. A negative
length becomes a size that no value has. -/
def viewOf (e : Params.Entry) : Option FieldView :=
  match e.bytes with
  | none => none
  | some bytes =>
      if e.length < 0 then none
      else some ⟨bytes.take e.length.toInt.toNat, false, e.format, e.oid⟩

/-- `as<T>()` of the entry is the value, for the type that the value holds. -/
def ReadsBack (floats : FloatParser) (e : Params.Entry) (v : FieldValue) : Prop :=
  ∃ fv, viewOf e = some fv ∧ fv.as floats (typeOf v) = .ok v

/-- The bytes of the values of which the size is not fixed by their type. -/
def payload : FieldValue → List UInt8
  | .string val | .stringView val => val
  | .bytes val | .byteSpan val => val
  | _ => []

section

variable (floats : FloatParser) {v : FieldValue} {bytes : List UInt8} {format oid : ℕ}

theorem viewOf_of_lt (h : bytes.length < 2 ^ 31) :
    viewOf ⟨some bytes, Int32.ofNat bytes.length, format, oid⟩ =
      some ⟨bytes, false, format, oid⟩ := by
  have hint : (Int32.ofNat bytes.length).toInt = bytes.length := Int32.toInt_ofNat_of_lt h
  have hnonneg : ¬ Int32.ofNat bytes.length < 0 := by
    rw [Int32.lt_iff_toInt_lt, hint]
    simp
  simp only [viewOf, if_neg hnonneg, hint, Int.toNat_natCast, List.take_length]

theorem readsBack_of_as (h : bytes.length < 2 ^ 31)
    (has : (FieldView.mk bytes false format oid).as floats (typeOf v) = .ok v) :
    ReadsBack floats ⟨some bytes, Int32.ofNat bytes.length, format, oid⟩ v :=
  ⟨_, viewOf_of_lt h, has⟩

/-- A value that is read from all of its bytes comes back if an `int` holds their number. -/
theorem readsBack_whole_iff
    (h : ∀ read, (FieldView.mk read false format oid).as floats (typeOf v) = .ok v ↔
      read = bytes) :
    ReadsBack floats ⟨some bytes, Int32.ofNat bytes.length, format, oid⟩ v ↔
      bytes.length < 2 ^ 31 := by
  constructor
  · rintro ⟨fv, hview, has⟩
    simp only [viewOf] at hview
    split_ifs at hview
    obtain rfl := Option.some.inj hview
    have hle := (List.take_eq_self_iff _).mp ((h _).mp has)
    have hlt := (Int32.ofNat bytes.length).toInt_lt
    omega
  · intro hlt
    exact readsBack_of_as floats hlt ((h bytes).mpr rfl)

end

theorem length_decimal_le {n k : ℕ} (hk : 0 < k) (h : n < 10 ^ k) : (decimal n).length ≤ k := by
  unfold decimal
  split_ifs
  · exact hk
  · rw [List.length_reverse, List.length_map, Nat.digits_length_le_iff (by decide)]
    exact h

theorem readsBack_integer (floats : FloatParser) {v : FieldValue} {n : ℤ}
    (h : numberOf v = some n) (hv : ∀ m, v ≠ .uint64 m) :
    ReadsBack floats (Params.encode v) v := by
  obtain ⟨t, ht, hn, rfl⟩ := exists_box h hv
  have hcolumn := Target.column_holds ht hn
  have hlength := t.column.length_binary n
  have hwidth : 0 < t.column.width ∧ t.column.width < 2 ^ 31 := by cases t.column <;> decide
  have hne : t.column.binary n ≠ [] := List.length_pos_iff.mp (hlength ▸ hwidth.1)
  rw [encode_box ht hn, Params.binaryEntry, if_neg hne]
  refine readsBack_of_as floats (hlength ▸ hwidth.2) ?_
  rw [Target.typeOf_box]
  exact as_column floats t hn hcolumn

/-- The numeral is read by the decoder for texts, since its type is not in binary. -/
theorem readsBack_uint64 (floats : FloatParser) (n : UInt64) :
    ReadsBack floats (Params.encode (.uint64 n)) (.uint64 n) := by
  have hlt : n.toNat < 2 ^ 64 := n.toNat_lt
  have hlength : (decimal n.toNat).length < 2 ^ 31 :=
    (length_decimal_le (k := 20) (by decide) (hlt.trans (by decide))).trans_lt (by decide)
  have hholds : Target.uint64.range.Holds n.toNat := by
    refine ⟨Int.natCast_nonneg _, ?_⟩
    change (n.toNat : ℤ) < 2 ^ 64
    exact_mod_cast hlt
  refine readsBack_of_as floats hlength ?_
  change FieldView.as floats _ Target.uint64.fieldType = _
  rw [FieldView.as_integer floats rfl, FieldView.decodeInteger_text rfl,
    (FieldView.decodeIntegerText_eq_ok_iff _ _ (n.toNat : ℤ)).mpr]
  · exact congrArg (fun m => Except.ok (FieldValue.uint64 m)) UInt64.ofNat_toNat
  · change fromChars _ (integer n.toNat) = _
    rw [fromChars_integer, if_pos hholds]

theorem load_bigEndian {width n : ℕ} (h : n < 256 ^ width) (format oid : ℕ) :
    (FieldView.mk (bigEndian width n) false format oid).load width = .ok n := by
  have hlength := length_bigEndian width n
  rw [FieldView.load, if_pos hlength.ge]
  simp only [List.take_of_length_le hlength.le, ofBigEndian_bigEndian, Nat.mod_eq_of_lt h]

theorem decodeFloating_binary {fv : FieldView} {oid : ℕ} (h : fv.isBinary oid = true) {width : ℕ}
    {numeral : Option ℕ} {nan infinity negativeInfinity : ℕ} {failure : String} :
    fv.decodeFloating oid width numeral nan infinity negativeInfinity failure = fv.load width :=
  if_pos h

theorem readsBack_float (floats : FloatParser) (bits : UInt32) :
    ReadsBack floats (Params.encode (.float bits)) (.float bits) := by
  have hlength : (bigEndian 4 bits.toNat).length < 2 ^ 31 := by
    rw [length_bigEndian]
    decide
  refine readsBack_of_as floats hlength ?_
  rw [FieldView.as, if_neg (by simp), typeOf, FieldView.decode, FieldView.decodeFloat,
    decodeFloating_binary rfl, load_bigEndian bits.toNat_lt]
  exact congrArg (fun n => Except.ok (FieldValue.float n)) UInt32.ofNat_toNat

theorem readsBack_double (floats : FloatParser) (bits : UInt64) :
    ReadsBack floats (Params.encode (.double bits)) (.double bits) := by
  have hlength : (bigEndian 8 bits.toNat).length < 2 ^ 31 := by
    rw [length_bigEndian]
    decide
  refine readsBack_of_as floats hlength ?_
  rw [FieldView.as, if_neg (by simp), typeOf, FieldView.decode, FieldView.decodeDouble,
    decodeFloating_binary rfl, load_bigEndian bits.toNat_lt]
  exact congrArg (fun n => Except.ok (FieldValue.double n)) UInt64.ofNat_toNat

/-- The encoding of a value that is not bound as null is read as the value, if it is not
longer than an `int` says. -/
theorem readsBack_encode_iff (floats : FloatParser) {v : FieldValue} (h : ¬ BindsNull v) :
    ReadsBack floats (Params.encode v) v ↔ (payload v).length < 2 ^ 31 := by
  have hfixed : ReadsBack floats (Params.encode v) v → payload v = [] →
      (ReadsBack floats (Params.encode v) v ↔ (payload v).length < 2 ^ 31) := fun hread hnil =>
    iff_of_true hread (by rw [hnil]; decide)
  cases v with
  | monostate => exact absurd (.inl rfl) h
  | bool b => exact hfixed ⟨_, rfl, by cases b <;> rfl⟩ rfl
  | char c => exact hfixed ⟨_, rfl, rfl⟩ rfl
  | int16 n => exact hfixed (readsBack_integer floats rfl nofun) rfl
  | int32 n => exact hfixed (readsBack_integer floats rfl nofun) rfl
  | int64 n => exact hfixed (readsBack_integer floats rfl nofun) rfl
  | uint16 n => exact hfixed (readsBack_integer floats rfl nofun) rfl
  | uint32 n => exact hfixed (readsBack_integer floats rfl nofun) rfl
  | uint64 n => exact hfixed (readsBack_uint64 floats n) rfl
  | float bits => exact hfixed (readsBack_float floats bits) rfl
  | double bits => exact hfixed (readsBack_double floats bits) rfl
  | string s =>
    refine readsBack_whole_iff floats fun read => ?_
    change Except.ok (FieldValue.string read) = .ok (.string s) ↔ read = s
    simp
  | stringView s =>
    refine readsBack_whole_iff floats fun read => ?_
    change Except.ok (FieldValue.stringView read) = .ok (.stringView s) ↔ read = s
    simp
  | bytes bytes =>
    have hne : bytes ≠ [] := fun heq => h (.inr (.inl (congrArg _ heq)))
    rw [Params.encode, Params.binaryEntry, if_neg hne]
    refine readsBack_whole_iff floats fun read => ?_
    change Except.ok (FieldValue.bytes read) = .ok (.bytes bytes) ↔ read = bytes
    simp
  | byteSpan bytes =>
    have hne : bytes ≠ [] := fun heq => h (.inr (.inr (congrArg _ heq)))
    rw [Params.encode, Params.binaryEntry, if_neg hne]
    refine readsBack_whole_iff floats fun read => ?_
    change Except.ok (FieldValue.byteSpan read) = .ok (.byteSpan bytes) ↔ read = bytes
    simp

/-! ### Reading a sink -/

/-- A value pushed after any others and before any others is read back from its own entry,
unless it is a text or a vector of which an `int` does not hold the length. -/
theorem bound_readsBack_iff (floats : FloatParser) (before after : List FieldValue)
    (v : FieldValue) (h : ¬ BindsNull v) :
    ∃ e, (Params.empty.pushAll (before ++ v :: after)).entries[before.length]? = some e ∧
      (ReadsBack floats e v ↔ (payload v).length < 2 ^ 31) := by
  refine ⟨Params.encode v, ?_, readsBack_encode_iff floats h⟩
  rw [Params.entries_pushAll Params.valid_empty]
  simp [Params.entries, Params.empty]

/-- A text with a zero in it, between two other parameters. -/
theorem bound_readsBack_text :
    ∃ e, (Params.empty.pushAll [.bool true, .string [97, 0, 98], .uint64 7]).entries[1]? = some e ∧
      ReadsBack default e (.string [97, 0, 98]) := by
  obtain ⟨e, hentry, hread⟩ := bound_readsBack_iff default [.bool true] [.uint64 7]
    (.string [97, 0, 98]) (by decide)
  exact ⟨e, hentry, hread.mpr (by decide)⟩

/-- The length of a text of 4 GiB is cast to zero, and it is read as an empty text. -/
theorem not_readsBack_long :
    ¬ BindsNull (.string (List.replicate (2 ^ 32) 97)) ∧
    ∃ e, (Params.empty.pushAll [.string (List.replicate (2 ^ 32) 97)]).entries[0]? = some e ∧
      e.length = 0 ∧ ¬ ReadsBack default e (.string (List.replicate (2 ^ 32) 97)) := by
  have hlength : (List.replicate (2 ^ 32) (97 : UInt8)).length = 2 ^ 32 := List.length_replicate
  have hnull : ¬ BindsNull (.string (List.replicate (2 ^ 32) 97)) := by
    rintro (h | h | h) <;> cases h
  refine ⟨hnull, Params.encode (.string (List.replicate (2 ^ 32) 97)), ?_, ?_, ?_⟩
  · rw [Params.entries_pushAll Params.valid_empty]
    rfl
  · rw [Params.encode, Params.textEntry, hlength]
    rfl
  · rw [readsBack_encode_iff default hnull, payload, hlength]
    decide

end Demiplane.Postgres

import Mathlib.Data.Rat.Cast.Order
import Mathlib.Tactic.FieldSimp
import Mathlib.Tactic.Linarith
import Demiplane.Postgres.ResultViews

/-!
Columns as the server sends them, in text or in binary, and the numbers that
`FieldView::as` reads from them. In text a number is read or refused, up to its fraction.
In binary it is cast where the decoder knows its type, and its bytes are read as a text
where the decoder does not.
-/

namespace Demiplane.Postgres

open Text Query

/-! ### Network byte order -/

theorem length_bigEndian (width n : ℕ) : (bigEndian width n).length = width := by
  simp [bigEndian]

theorem bigEndian_succ (width n : ℕ) :
    bigEndian (width + 1) n = UInt8.ofNat (n / 256 ^ width) :: bigEndian width n := by
  simp [bigEndian, List.range_succ]

theorem ofBigEndian_foldl (bytes : List UInt8) (n : ℕ) :
    bytes.foldl (fun n b => 256 * n + b.toNat) n =
      n * 256 ^ bytes.length + ofBigEndian bytes := by
  induction bytes generalizing n with
  | nil => simp [ofBigEndian]
  | cons b bytes ih =>
    rw [ofBigEndian, List.foldl_cons, List.foldl_cons, ih, ih, List.length_cons, Nat.pow_succ]
    ring

theorem ofBigEndian_bigEndian (width n : ℕ) :
    ofBigEndian (bigEndian width n) = n % 256 ^ width := by
  induction width with
  | zero => simp [bigEndian, ofBigEndian, Nat.mod_one]
  | succ width ih =>
    have hbyte : (UInt8.ofNat (n / 256 ^ width)).toNat = n / 256 ^ width % 256 := by simp
    rw [bigEndian_succ, ofBigEndian, List.foldl_cons, ofBigEndian_foldl, length_bigEndian, ih,
      hbyte, Nat.mul_zero, Nat.zero_add, Nat.pow_succ, Nat.mod_mul]
    ring

/-! ### Columns -/

/-- The integer types of PostgreSQL. -/
inductive IntColumn where
  | int2
  | int4
  | int8
  deriving DecidableEq, Repr

namespace IntColumn

def oid : IntColumn → ℕ
  | int2 => OidTypeRegistry.int2
  | int4 => OidTypeRegistry.int4
  | int8 => OidTypeRegistry.int8

def width : IntColumn → ℕ
  | int2 => 2
  | int4 => 4
  | int8 => 8

def range (c : IntColumn) : IntType := ⟨true, 8 * c.width⟩

/-- The binary format: the two's complement in network byte order. -/
def binary (c : IntColumn) (v : ℤ) : List UInt8 :=
  bigEndian c.width (v % 2 ^ (8 * c.width)).toNat

theorem length_binary (c : IntColumn) (v : ℤ) : (c.binary v).length = c.width :=
  length_bigEndian _ _

theorem ofBigEndian_binary (c : IntColumn) (v : ℤ) :
    ofBigEndian (c.binary v) = (v % 2 ^ (8 * c.width)).toNat := by
  have hnonneg : 0 ≤ v % 2 ^ (8 * c.width) := Int.emod_nonneg _ (by positivity)
  have hbound : v % 2 ^ (8 * c.width) < 2 ^ (8 * c.width) :=
    Int.emod_lt_of_pos _ (by positivity)
  have hpow : (256 : ℤ) ^ c.width = 2 ^ (8 * c.width) := by
    rw [pow_mul]
    norm_num
  have hlt : (v % 2 ^ (8 * c.width)).toNat < 256 ^ c.width := by
    zify
    rw [Int.toNat_of_nonneg hnonneg, hpow]
    exact hbound
  rw [binary, ofBigEndian_bigEndian, Nat.mod_eq_of_lt hlt]

end IntColumn

/-- A `numeric`, with the digits behind its decimal point. -/
inductive Numeric where
  | nan
  | infinity (negative : Bool)
  | finite (negative : Bool) (whole : ℕ) (fraction : List (Fin 10))
  deriving DecidableEq, Repr

namespace Numeric

def sign (negative : Bool) : Text := if negative then [hyphen] else []

/-- The digits behind the decimal point, and the point itself. -/
def point (fraction : List (Fin 10)) : Text :=
  if fraction = [] then [] else 46 :: fraction.map fun d => digit d

def text : Numeric → Text
  | nan => ascii "NaN"
  | infinity negative => sign negative ++ ascii "Infinity"
  | finite negative whole fraction => sign negative ++ (decimal whole ++ point fraction)

/-- `0.d₁d₂d₃…`. -/
def fractionValue : List (Fin 10) → ℚ
  | [] => 0
  | d :: rest => (d.val + fractionValue rest) / 10

/-- The number, if it is one. -/
def value : Numeric → Option ℚ
  | nan => none
  | infinity _ => none
  | finite negative whole fraction =>
      some ((if negative then -1 else 1) * (whole + fractionValue fraction))

/-- The whole part, with the sign. -/
def truncated (negative : Bool) (whole : ℕ) : ℤ := if negative then -(whole : ℤ) else whole

end Numeric

/-- A column value that is not null, as it is delivered. -/
inductive Column where
  | text (type : IntColumn) (v : ℤ) (holds : type.range.Holds v)
  | binary (type : IntColumn) (v : ℤ) (holds : type.range.Holds v)
  | numeric (n : Numeric)

namespace Column

def view : Column → FieldView
  | text type v _ => ⟨integer v, false, FormatRegistry.text, type.oid⟩
  | binary type v _ => ⟨type.binary v, false, FormatRegistry.binary, type.oid⟩
  | numeric n => ⟨n.text, false, FormatRegistry.text, OidTypeRegistry.numeric⟩

def value : Column → Option ℚ
  | text _ v _ => some v
  | binary _ v _ => some v
  | numeric n => n.value

end Column

/-! ### Types to decode into -/

/-- The integer types that `as` can be asked for. -/
inductive Target where
  | int16
  | int32
  | int64
  | uint16
  | uint32
  | uint64
  deriving DecidableEq, Repr

namespace Target

def fieldType : Target → FieldType
  | int16 => .int16
  | int32 => .int32
  | int64 => .int64
  | uint16 => .uint16
  | uint32 => .uint32
  | uint64 => .uint64

def range : Target → IntType
  | int16 => int16T
  | int32 => int32T
  | int64 => int64T
  | uint16 => uint16T
  | uint32 => uint32T
  | uint64 => uint64T

/-- The types that the decoder knows in binary. -/
def sources : Target → List (ℕ × ℕ)
  | int16 => FieldView.int16Sources
  | int32 => FieldView.int32Sources
  | int64 => FieldView.int64Sources
  | uint16 => FieldView.uint16Sources
  | uint32 => FieldView.uint32Sources
  | uint64 => FieldView.uint64Sources

/-- The decoder knows the type in binary. -/
def Knows (t : Target) (c : IntColumn) : Prop := (c.oid, c.width) ∈ t.sources

instance (t : Target) (c : IntColumn) : Decidable (t.Knows c) :=
  inferInstanceAs (Decidable ((c.oid, c.width) ∈ t.sources))

end Target

/-- The number that a value holds. -/
def numberOf : FieldValue → Option ℤ
  | .int16 n => some n.toInt
  | .int32 n => some n.toInt
  | .int64 n => some n.toInt
  | .uint16 n => some n.toNat
  | .uint32 n => some n.toNat
  | .uint64 n => some n.toNat
  | _ => none

namespace Target

/-- The value that holds a number of the type. -/
def box : Target → ℤ → FieldValue
  | int16, n => .int16 (Int16.ofInt n)
  | int32, n => .int32 (Int32.ofInt n)
  | int64, n => .int64 (Int64.ofInt n)
  | uint16, n => .uint16 (UInt16.ofNat n.toNat)
  | uint32, n => .uint32 (UInt32.ofNat n.toNat)
  | uint64, n => .uint64 (UInt64.ofNat n.toNat)

theorem one_le_bits (t : Target) : 1 ≤ t.range.bits := by
  cases t <;> decide

theorem cast_mod {n : ℤ} {m bits : ℕ} (hleast : 0 ≤ n) (hbound : n < 2 ^ bits)
    (hm : m = n.toNat % 2 ^ bits) : (m : ℤ) = n := by
  have hlt : n.toNat < 2 ^ bits := by
    zify
    rwa [Int.toNat_of_nonneg hleast]
  rw [hm, Nat.mod_eq_of_lt hlt, Int.toNat_of_nonneg hleast]

theorem numberOf_box (t : Target) {n : ℤ} (h : t.range.Holds n) : numberOf (t.box n) = some n := by
  obtain ⟨hleast, hbound⟩ := h
  cases t with
  | int16 => exact congrArg some (Int16.toInt_ofInt_of_le hleast hbound)
  | int32 => exact congrArg some (Int32.toInt_ofInt_of_le hleast hbound)
  | int64 => exact congrArg some (Int64.toInt_ofInt_of_le hleast hbound)
  | uint16 => exact congrArg some (cast_mod hleast hbound UInt16.toNat_ofNat')
  | uint32 => exact congrArg some (cast_mod hleast hbound UInt32.toNat_ofNat')
  | uint64 => exact congrArg some (cast_mod hleast hbound UInt64.toNat_ofNat')

end Target

/-! ### What the decoders of integers return -/

namespace FieldView

theorem as_integer (floats : FloatParser) {fv : FieldView} (hnull : fv.isNull = false)
    (t : Target) :
    fv.as floats t.fieldType = (fv.decodeInteger t.range t.sources).map t.box := by
  unfold FieldView.as
  rw [if_neg (by simp [hnull])]
  cases t <;> rfl

theorem decodeInteger_text {fv : FieldView} (h : fv.format = FormatRegistry.text) (t : IntType)
    (sources : List (ℕ × ℕ)) : fv.decodeInteger t sources = fv.decodeIntegerText t := by
  have hnone : (sources.find? fun source => fv.isBinary source.1) = none := by
    rw [List.find?_eq_none]
    simp [isBinary, h]
  rw [decodeInteger, hnone]

theorem decodeIntegerText_eq_ok_iff (fv : FieldView) (t : IntType) (n : ℤ) :
    fv.decodeIntegerText t = .ok n ↔ fromChars t fv.bytes = some n := by
  unfold decodeIntegerText
  cases fromChars t fv.bytes with
  | none => simp
  | some m => simp

theorem holds_of_decodeInteger {fv : FieldView} {t : IntType} (ht : 1 ≤ t.bits)
    {sources : List (ℕ × ℕ)} {n : ℤ} (h : fv.decodeInteger t sources = .ok n) : t.Holds n := by
  unfold decodeInteger at h
  cases hsource : sources.find? fun source => fv.isBinary source.1 with
  | none =>
    rw [hsource] at h
    exact holds_of_fromChars ((decodeIntegerText_eq_ok_iff fv t n).mp h)
  | some source =>
    rw [hsource] at h
    dsimp only at h
    cases hload : fv.load source.2 with
    | error e => simp [hload, Except.map] at h
    | ok m =>
      simp only [hload, Except.map, Except.ok.injEq] at h
      exact h ▸ IntType.wrap_holds ht m

end FieldView

namespace Column

theorem isNull_view (c : Column) : c.view.isNull = false := by
  cases c <;> rfl

theorem decodeInteger_text_eq_ok_iff (t : Target) (type : IntColumn) (v : ℤ)
    (holds : type.range.Holds v) (n : ℤ) :
    (text type v holds).view.decodeInteger t.range t.sources = .ok n ↔
      t.range.Holds v ∧ n = v := by
  rw [FieldView.decodeInteger_text rfl, FieldView.decodeIntegerText_eq_ok_iff]
  change fromChars t.range (integer v) = some n ↔ _
  rw [fromChars_integer]
  split_ifs with h
  · simp [h, eq_comm]
  · simp [h]

theorem load_binary (type : IntColumn) (v : ℤ) (holds : type.range.Holds v) :
    (binary type v holds).view.load type.width = .ok (v % 2 ^ (8 * type.width)).toNat := by
  have hlength : (type.binary v).length = type.width := type.length_binary v
  unfold FieldView.load
  change (if type.width ≤ (type.binary v).length then
    Except.ok (ofBigEndian ((type.binary v).take type.width)) else _) = _
  rw [if_pos hlength.ge, List.take_of_length_le hlength.le, type.ofBigEndian_binary]

/-- A type that the decoder knows is found under its OID. -/
theorem find_source (t : Target) (type : IntColumn) (v : ℤ) (holds : type.range.Holds v) :
    (t.sources.find? fun source => (binary type v holds).view.isBinary source.1) =
      if t.Knows type then some (type.oid, type.width) else none := by
  cases t <;> cases type <;> rfl

theorem decodeInteger_known {t : Target} {type : IntColumn} (h : t.Knows type) (v : ℤ)
    (holds : type.range.Holds v) :
    (binary type v holds).view.decodeInteger t.range t.sources =
      .ok (t.range.wrap (v % 2 ^ (8 * type.width)).toNat) := by
  rw [FieldView.decodeInteger, find_source, if_pos h]
  dsimp only
  rw [load_binary]
  rfl

theorem decodeInteger_unknown {t : Target} {type : IntColumn} (h : ¬ t.Knows type) (v : ℤ)
    (holds : type.range.Holds v) (n : ℤ) :
    (binary type v holds).view.decodeInteger t.range t.sources = .ok n ↔
      fromChars t.range (type.binary v) = some n := by
  rw [FieldView.decodeInteger, find_source, if_neg h]
  exact FieldView.decodeIntegerText_eq_ok_iff _ _ _

end Column

/-! ### Numerals of `numeric` -/

namespace Numeric

theorem head_point (fraction : List (Fin 10)) : ((point fraction).head?.any isDigit) = false := by
  unfold point
  split_ifs with h
  · rfl
  · rfl

theorem fromChars_finite (t : IntType) (negative : Bool) (whole : ℕ) (fraction : List (Fin 10)) :
    fromChars t (finite negative whole fraction).text =
      if (negative = true → t.signed = true) ∧ t.Holds (truncated negative whole) then
        some (truncated negative whole)
      else none := by
  have hdigits : ∀ c ∈ decimal whole, isDigit c = true := fun c => isDigit_of_mem_decimal
  have hne := decimal_ne_nil whole
  cases negative with
  | true =>
    change fromChars t (hyphen :: (decimal whole ++ point fraction)) = _
    rw [fromChars_hyphen t hdigits hne (head_point fraction), number_decimal]
    simp [truncated]
  | false =>
    change fromChars t (decimal whole ++ point fraction) = _
    rw [fromChars_digits t hdigits hne (head_point fraction), number_decimal]
    simp [truncated]

theorem fromChars_nan (t : IntType) : fromChars t nan.text = none := by
  have hhead : (nan.text.head? == some hyphen) = false := by decide
  have hdigits : nan.text.takeWhile isDigit = [] := by decide
  simp only [fromChars, hhead, Bool.and_false, Bool.false_eq_true, if_false, hdigits, if_true]

theorem fromChars_infinity (t : IntType) (negative : Bool) :
    fromChars t (infinity negative).text = none := by
  have hdigits : (infinity negative).text.takeWhile isDigit = [] := by
    cases negative <;> decide
  have htail : (infinity negative).text.tail.takeWhile isDigit = [] := by
    cases negative <;> decide
  unfold fromChars
  dsimp only
  split_ifs <;> rfl

theorem fractionValue_nonneg (fraction : List (Fin 10)) : 0 ≤ fractionValue fraction := by
  induction fraction with
  | nil => exact le_rfl
  | cons d rest ih =>
    unfold fractionValue
    positivity

theorem fractionValue_eq_zero_iff (fraction : List (Fin 10)) :
    fractionValue fraction = 0 ↔ ∀ d ∈ fraction, d = 0 := by
  induction fraction with
  | nil => simp [fractionValue]
  | cons d rest ih =>
    have hrest := fractionValue_nonneg rest
    have hd : (0 : ℚ) ≤ (d.val : ℚ) := by positivity
    rw [List.forall_mem_cons, ← ih, fractionValue, div_eq_zero_iff]
    constructor
    · rintro (h | h)
      · have hzero : (d.val : ℚ) = 0 := by linarith
        exact ⟨by exact_mod_cast hzero, by linarith⟩
      · norm_num at h
    · rintro ⟨rfl, h⟩
      left
      simp [h]

/-- The whole part is the number if there is nothing but zeros behind the decimal point. -/
theorem value_eq_truncated_iff (negative : Bool) (whole : ℕ) (fraction : List (Fin 10)) :
    (finite negative whole fraction).value = some (truncated negative whole : ℚ) ↔
      ∀ d ∈ fraction, d = 0 := by
  rw [← fractionValue_eq_zero_iff, value, Option.some.injEq]
  cases negative with
  | true =>
    simp only [truncated, if_true]
    push_cast
    constructor <;> intro h <;> linarith
  | false =>
    simp only [truncated, Bool.false_eq_true, if_false]
    push_cast
    constructor <;> intro h <;> linarith

end Numeric

/-! ### Bytes read as a text -/

theorem IntColumn.binary_cons (type : IntColumn) (v : ℤ) :
    ∃ rest, type.binary v =
      UInt8.ofNat ((v % 2 ^ (8 * type.width)).toNat / 256 ^ (type.width - 1)) :: rest := by
  obtain ⟨k, hk⟩ : ∃ k, type.width = k + 1 := by
    cases type
    · exact ⟨1, rfl⟩
    · exact ⟨3, rfl⟩
    · exact ⟨7, rfl⟩
  rw [IntColumn.binary, hk, bigEndian_succ, Nat.add_sub_cancel]
  exact ⟨_, rfl⟩

/-- A numeral of as many characters as the number has bytes denotes a smaller number: the
first byte would be a digit or a sign. -/
theorem IntColumn.fromChars_binary_ne {type : IntColumn} {v : ℤ} (holds : type.range.Holds v)
    (t : IntType) : fromChars t (type.binary v) ≠ some v := by
  intro h
  obtain ⟨hlt, c, cs, htext, hlow, hhigh⟩ := fromChars_bounds h
  obtain ⟨rest, hrest⟩ := type.binary_cons v
  have hc : c = UInt8.ofNat ((v % 2 ^ (8 * type.width)).toNat / 256 ^ (type.width - 1)) := by
    rw [htext] at hrest
    exact (List.cons.inj hrest).1
  rw [type.length_binary] at hlt
  have hnat : c.toNat = (v % 2 ^ (8 * type.width)).toNat / 256 ^ (type.width - 1) % 256 := by
    rw [hc]
    simp
  obtain ⟨hleast, hbound⟩ := holds
  cases type with
  | int2 =>
    change -2 ^ 15 ≤ v at hleast
    change v < 2 ^ 15 at hbound
    simp only [IntColumn.width] at *
    omega
  | int4 =>
    change -2 ^ 31 ≤ v at hleast
    change v < 2 ^ 31 at hbound
    simp only [IntColumn.width] at *
    omega
  | int8 =>
    change -2 ^ 63 ≤ v at hleast
    change v < 2 ^ 63 at hbound
    simp only [IntColumn.width] at *
    omega

/-! ### Soundness -/

/-- What is returned is the value of the column. -/
def Sound (floats : FloatParser) (column : Column) (t : Target) : Prop :=
  ∀ x, column.view.as floats t.fieldType = .ok x →
    ∃ n : ℤ, numberOf x = some n ∧ column.value = some (n : ℚ)

/-- Integers in binary are of a type that the decoder knows and in its range, or of an
unknown one and their bytes do not begin with a numeral in its range. A `numeric` has no
fraction, or its whole part is out of range, the sign included. -/
def Column.SafeFor (t : Target) : Column → Prop
  | text _ _ _ => True
  | binary type v _ =>
      if t.Knows type then t.range.Holds v else fromChars t.range (type.binary v) = none
  | numeric .nan => True
  | numeric (.infinity _) => True
  | numeric (.finite negative whole fraction) =>
      (∀ d ∈ fraction, d = 0) ∨ ¬ t.range.Holds (Numeric.truncated negative whole) ∨
        negative = true ∧ t.range.signed = false

theorem as_eq_ok_iff (floats : FloatParser) (column : Column) (t : Target) (x : FieldValue) :
    column.view.as floats t.fieldType = .ok x ↔
      ∃ n, column.view.decodeInteger t.range t.sources = .ok n ∧ x = t.box n := by
  rw [FieldView.as_integer floats column.isNull_view]
  cases column.view.decodeInteger t.range t.sources with
  | error e => simp [Except.map]
  | ok n => simp [Except.map, eq_comm]

theorem numberOf_of_decodeInteger {column : Column} {t : Target} {n : ℤ}
    (h : column.view.decodeInteger t.range t.sources = .ok n) : numberOf (t.box n) = some n :=
  t.numberOf_box (FieldView.holds_of_decodeInteger t.one_le_bits h)

theorem sound_iff_decodeInteger (floats : FloatParser) (column : Column) (t : Target) :
    Sound floats column t ↔
      ∀ n, column.view.decodeInteger t.range t.sources = .ok n →
        column.value = some (n : ℚ) := by
  constructor
  · intro h n hn
    obtain ⟨m, hm, hvalue⟩ := h _ ((as_eq_ok_iff floats column t _).mpr ⟨n, hn, rfl⟩)
    rw [numberOf_of_decodeInteger hn] at hm
    rwa [Option.some.inj hm]
  · intro h x hx
    obtain ⟨n, hn, rfl⟩ := (as_eq_ok_iff floats column t x).mp hx
    exact ⟨n, numberOf_of_decodeInteger hn, h n hn⟩

theorem Target.bits_le_of_knows {t : Target} {type : IntColumn} (h : t.Knows type) :
    t.range.bits ≤ 8 * type.width := by
  revert h
  cases t <;> cases type <;> decide

theorem sound_binary_known {floats : FloatParser} {t : Target} {type : IntColumn}
    (h : t.Knows type) (v : ℤ) (holds : type.range.Holds v) :
    Sound floats (.binary type v holds) t ↔ t.range.Holds v := by
  rw [sound_iff_decodeInteger, Column.decodeInteger_known h,
    ← IntType.wrap_eq_iff t.one_le_bits (Target.bits_le_of_knows h) v]
  simp only [Except.ok.injEq, forall_eq', Column.value, Option.some.injEq, Int.cast_inj]
  exact eq_comm

theorem sound_binary_unknown {floats : FloatParser} {t : Target} {type : IntColumn}
    (h : ¬ t.Knows type) (v : ℤ) (holds : type.range.Holds v) :
    Sound floats (.binary type v holds) t ↔ fromChars t.range (type.binary v) = none := by
  rw [sound_iff_decodeInteger]
  simp only [Column.decodeInteger_unknown h, Column.value, Option.some.injEq, Int.cast_inj]
  constructor
  · intro hsound
    rw [Option.eq_none_iff_forall_ne_some]
    rintro n hn
    obtain rfl := hsound n hn
    exact IntColumn.fromChars_binary_ne holds _ hn
  · intro hnone n hn
    simp [hnone] at hn

theorem sound_numeric_iff (floats : FloatParser) (n : Numeric) (t : Target) :
    Sound floats (.numeric n) t ↔
      ∀ m, fromChars t.range n.text = some m → n.value = some (m : ℚ) := by
  rw [sound_iff_decodeInteger, FieldView.decodeInteger_text rfl]
  simp only [FieldView.decodeIntegerText_eq_ok_iff]
  rfl

theorem sound_finite (floats : FloatParser) (t : Target) (negative : Bool) (whole : ℕ)
    (fraction : List (Fin 10)) :
    Sound floats (.numeric (.finite negative whole fraction)) t ↔
      (∀ d ∈ fraction, d = 0) ∨ ¬ t.range.Holds (Numeric.truncated negative whole) ∨
        negative = true ∧ t.range.signed = false := by
  rw [sound_numeric_iff, Numeric.fromChars_finite,
    ← Numeric.value_eq_truncated_iff negative whole fraction]
  split_ifs with h
  · obtain ⟨hsign, hholds⟩ := h
    simp only [Option.some.injEq, forall_eq', hholds, not_true_eq_false, false_or]
    constructor
    · exact Or.inl
    · rintro (hvalue | ⟨hnegative, hunsigned⟩)
      · exact hvalue
      · rw [hsign hnegative] at hunsigned
        cases hunsigned
  · refine iff_of_true (fun m hm => by simp at hm) ?_
    right
    by_cases hholds : t.range.Holds (Numeric.truncated negative whole)
    · right
      by_contra hsign
      refine h ⟨fun hnegative => ?_, hholds⟩
      by_contra hunsigned
      exact hsign ⟨hnegative, by simpa using hunsigned⟩
    · exact Or.inl hholds

theorem sound_iff_safeFor (floats : FloatParser) (column : Column) (t : Target) :
    Sound floats column t ↔ column.SafeFor t := by
  cases column with
  | text type v holds =>
    refine iff_of_true ?_ trivial
    rw [sound_iff_decodeInteger]
    intro n hn
    obtain ⟨-, rfl⟩ := (Column.decodeInteger_text_eq_ok_iff t type v holds n).mp hn
    rfl
  | binary type v holds =>
    rw [Column.SafeFor]
    split_ifs with h
    · exact sound_binary_known h v holds
    · exact sound_binary_unknown h v holds
  | numeric n =>
    cases n with
    | nan =>
      refine iff_of_true ?_ trivial
      rw [sound_numeric_iff, Numeric.fromChars_nan]
      exact fun m hm => by simp at hm
    | infinity negative =>
      refine iff_of_true ?_ trivial
      rw [sound_numeric_iff, Numeric.fromChars_infinity]
      exact fun m hm => by simp at hm
    | finite negative whole fraction => exact sound_finite floats t negative whole fraction

/-- `65536` in an `int4` is read as the `uint16_t` zero. -/
theorem not_sound_int4_uint16 :
    ¬ Sound default (.binary .int4 65536 (by decide)) .uint16 := by
  rw [sound_binary_known (by decide)]
  decide

/-! ### Text and binary -/

/-- Both return the same value, or both throw. -/
def Agree (a b : Except DecodeError FieldValue) : Prop :=
  match a, b with
  | .ok x, .ok y => x = y
  | .error _, .error _ => True
  | _, _ => False

/-- The two forms of a value are read alike. -/
def TextBinaryAgree (floats : FloatParser) (type : IntColumn) (v : ℤ)
    (holds : type.range.Holds v) (t : Target) : Prop :=
  Agree ((Column.text type v holds).view.as floats t.fieldType)
    ((Column.binary type v holds).view.as floats t.fieldType)

theorem agree_iff_decodeInteger (floats : FloatParser) (c d : Column) (t : Target) :
    Agree (c.view.as floats t.fieldType) (d.view.as floats t.fieldType) ↔
      ∀ n, c.view.decodeInteger t.range t.sources = .ok n ↔
        d.view.decodeInteger t.range t.sources = .ok n := by
  rw [FieldView.as_integer floats c.isNull_view, FieldView.as_integer floats d.isNull_view]
  cases hc : c.view.decodeInteger t.range t.sources with
  | error e =>
    cases hd : d.view.decodeInteger t.range t.sources with
    | error e' => simp [Except.map, Agree]
    | ok m => simp [Except.map, Agree]
  | ok n =>
    cases hd : d.view.decodeInteger t.range t.sources with
    | error e' => simp [Except.map, Agree]
    | ok m =>
      have hinj : t.box n = t.box m ↔ n = m := by
        refine ⟨fun h => ?_, fun h => congrArg _ h⟩
        have hn := numberOf_of_decodeInteger hc
        rw [h, numberOf_of_decodeInteger hd] at hn
        exact (Option.some.inj hn).symm
      simp only [Except.map, Agree, hinj, Except.ok.injEq]
      exact ⟨fun h k => by rw [h], fun h => (h m).mpr rfl⟩

/-- A decoder that knows the type needs its own to hold the value; one that does not must
fail on both forms. -/
theorem textBinaryAgree_iff (floats : FloatParser) (type : IntColumn) (v : ℤ)
    (holds : type.range.Holds v) (t : Target) :
    TextBinaryAgree floats type v holds t ↔
      if t.Knows type then t.range.Holds v
      else ¬ t.range.Holds v ∧ fromChars t.range (type.binary v) = none := by
  rw [TextBinaryAgree, agree_iff_decodeInteger]
  simp only [Column.decodeInteger_text_eq_ok_iff]
  split_ifs with h
  · rw [Column.decodeInteger_known h,
      ← IntType.wrap_eq_iff t.one_le_bits (Target.bits_le_of_knows h) v]
    simp only [Except.ok.injEq]
    constructor
    · intro hagree
      exact ((hagree _).mpr rfl).1
    · intro hwrap n
      rw [hwrap]
      exact ⟨fun hn => hn.2.symm, fun hn => ⟨rfl, hn.symm⟩⟩
  · simp only [Column.decodeInteger_unknown h]
    constructor
    · intro hagree
      have hout : ¬ t.range.Holds v := fun hv =>
        IntColumn.fromChars_binary_ne holds _ ((hagree v).mp ⟨hv, rfl⟩)
      refine ⟨hout, ?_⟩
      rw [Option.eq_none_iff_forall_ne_some]
      exact fun n hn => hout ((hagree n).mpr hn).1
    · rintro ⟨hout, hnone⟩ n
      refine ⟨fun hn => absurd hn.1 hout, fun hn => ?_⟩
      simp [hnone] at hn

theorem textBinaryAgree_int4_int32 :
    ∃ holds : IntColumn.int4.range.Holds (-7), TextBinaryAgree default .int4 (-7) holds .int32 :=
  ⟨by decide, (textBinaryAgree_iff default .int4 (-7) (by decide) .int32).mpr (by decide)⟩

/-- The `int2` one is the number one in text; in binary its bytes are no numeral. -/
theorem not_textBinaryAgree_int2_int32 :
    ¬ TextBinaryAgree default .int2 1 (by decide) .int32 := by
  intro h
  rw [TextBinaryAgree, agree_iff_decodeInteger] at h
  have hbinary := (h 1).mp ((Column.decodeInteger_text_eq_ok_iff _ _ _ _ _).mpr ⟨by decide, rfl⟩)
  rw [Column.decodeInteger_unknown (by decide)] at hbinary
  exact IntColumn.fromChars_binary_ne (by decide) _ hbinary

end Demiplane.Postgres

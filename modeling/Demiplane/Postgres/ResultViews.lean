import Demiplane.Text.Charconv
import Demiplane.Query.Params

/-!
`FieldView`: a value of a result, decoded into one of the types of `FieldValue`. The value
comes as text or in the binary format of its type, which is known by its OID; a decoder
that does not know the type in binary reads the value as text.
-/

namespace Demiplane.Postgres

open Text Query

/-- How a decoder fails: with `null_conversion_error`, with a `std::runtime_error`, or by
reading behind the end of the value. -/
inductive DecodeError where
  | nullConversion (sqlstate : String)
  | runtimeError (what : Text)
  | outOfBounds
  deriving DecidableEq, Repr

/-- `std::from_chars` for floating-point numbers, by their bits. -/
structure FloatParser where
  float : Text → Option UInt32
  double : Text → Option UInt64

instance : Inhabited FloatParser := ⟨⟨fun _ => none, fun _ => none⟩⟩

/-- The number that bytes denote in network byte order. -/
def ofBigEndian (bytes : List UInt8) : ℕ := bytes.foldl (fun n b => 256 * n + b.toNat) 0

abbrev int16T : IntType := ⟨true, 16⟩
abbrev int32T : IntType := ⟨true, 32⟩
abbrev int64T : IntType := ⟨true, 64⟩
abbrev uint16T : IntType := ⟨false, 16⟩
abbrev uint32T : IntType := ⟨false, 32⟩
abbrev uint64T : IntType := ⟨false, 64⟩

/-- `bytes` are the `len_` bytes at `ptr_`; behind them libpq keeps a zero. -/
structure FieldView where
  bytes : List UInt8
  isNull : Bool
  format : ℕ
  oid : ℕ
  deriving DecidableEq, Repr

namespace FieldView

/-- `format_ == FormatRegistry::binary && oid_ == oid`. -/
def isBinary (fv : FieldView) (oid : ℕ) : Bool :=
  fv.format == FormatRegistry.binary && fv.oid == oid

/-- `std::memcpy` of an unsigned number of `width` bytes, and `gears::ntoh`. -/
def load (fv : FieldView) (width : ℕ) : Except DecodeError ℕ :=
  if width ≤ fv.bytes.length then .ok (ofBigEndian (fv.bytes.take width)) else .error .outOfBounds

def decodeBool (fv : FieldView) : Bool :=
  if fv.isBinary OidTypeRegistry.bool then fv.bytes.headD 0 != 0
  else
    fv.bytes == ascii "t" || fv.bytes == ascii "true" || fv.bytes == ascii "1" ||
      fv.bytes == ascii "TRUE" || fv.bytes == ascii "T"

def decodeChar (fv : FieldView) : UInt8 :=
  if fv.isBinary OidTypeRegistry.char then fv.bytes.headD 0
  else if fv.bytes = [] then 0 else fv.bytes.headD 0

def decodeIntegerText (fv : FieldView) (t : IntType) : Except DecodeError ℤ :=
  match fromChars t fv.bytes with
  | some n => .ok n
  | none => .error (.runtimeError (ascii "Failed to parse integer from: " ++ fv.bytes))

/-- The decoders of integers: `sources` are the types that they know in binary, with the
widths of these. -/
def decodeInteger (fv : FieldView) (t : IntType) (sources : List (ℕ × ℕ)) :
    Except DecodeError ℤ :=
  match sources.find? fun source => fv.isBinary source.1 with
  | some source => (fv.load source.2).map t.wrap
  | none => fv.decodeIntegerText t

def int16Sources : List (ℕ × ℕ) := [(OidTypeRegistry.int2, 2)]

def int32Sources : List (ℕ × ℕ) := [(OidTypeRegistry.int4, 4)]

def int64Sources : List (ℕ × ℕ) := [(OidTypeRegistry.int8, 8)]

def uint16Sources : List (ℕ × ℕ) := [(OidTypeRegistry.int4, 4), (OidTypeRegistry.int2, 2)]

def uint32Sources : List (ℕ × ℕ) := [(OidTypeRegistry.int8, 8), (OidTypeRegistry.int4, 4)]

def uint64Sources : List (ℕ × ℕ) := [(OidTypeRegistry.int8, 8)]

def decodeInt16 (fv : FieldView) : Except DecodeError ℤ := fv.decodeInteger int16T int16Sources

def decodeInt32 (fv : FieldView) : Except DecodeError ℤ := fv.decodeInteger int32T int32Sources

def decodeInt64 (fv : FieldView) : Except DecodeError ℤ := fv.decodeInteger int64T int64Sources

def decodeUint16 (fv : FieldView) : Except DecodeError ℤ := fv.decodeInteger uint16T uint16Sources

def decodeUint32 (fv : FieldView) : Except DecodeError ℤ := fv.decodeInteger uint32T uint32Sources

def decodeUint64 (fv : FieldView) : Except DecodeError ℤ := fv.decodeInteger uint64T uint64Sources

/-- The decoders of floating-point numbers: from the bits, from a numeral, or from a word. -/
def decodeFloating (fv : FieldView) (oid width : ℕ) (numeral : Option ℕ)
    (nan infinity negativeInfinity : ℕ) (failure : String) : Except DecodeError ℕ :=
  if fv.isBinary oid then fv.load width
  else
    match numeral with
    | some bits => .ok bits
    | none =>
        if fv.bytes = ascii "NaN" ∨ fv.bytes = ascii "nan" then .ok nan
        else if fv.bytes = ascii "Infinity" ∨ fv.bytes = ascii "inf" then .ok infinity
        else if fv.bytes = ascii "-Infinity" ∨ fv.bytes = ascii "-inf" then .ok negativeInfinity
        else .error (.runtimeError (ascii failure ++ fv.bytes))

def decodeFloat (floats : FloatParser) (fv : FieldView) : Except DecodeError ℕ :=
  fv.decodeFloating OidTypeRegistry.float4 4 ((floats.float fv.bytes).map UInt32.toNat)
    0x7FC00000 0x7F800000 0xFF800000 "Failed to parse float: "

def decodeDouble (floats : FloatParser) (fv : FieldView) : Except DecodeError ℕ :=
  fv.decodeFloating OidTypeRegistry.float8 8 ((floats.double fv.bytes).map UInt64.toNat)
    0x7FF8000000000000 0x7FF0000000000000 0xFFF0000000000000 "Failed to parse double: "

def decodeBinarySpan (fv : FieldView) : Except DecodeError (List UInt8) :=
  if fv.isBinary OidTypeRegistry.bytea then .ok fv.bytes
  else
    .error (.runtimeError
      (ascii "Cannot decode text-format bytea as span. Use vector<std::uint8_t> instead."))

/-- The value of a hexadecimal digit. -/
def hexValue (c : UInt8) : Option ℕ :=
  if isDigit c then some (c.toNat - 48)
  else if 97 ≤ c ∧ c ≤ 102 then some (c.toNat - 87)
  else if 65 ≤ c ∧ c ≤ 70 then some (c.toNat - 55)
  else none

/-- `std::from_chars` of at most two digits to the base 16. -/
def fromHexChars (high low : UInt8) : Option UInt8 :=
  match hexValue high, hexValue low with
  | some h, some l => some (UInt8.ofNat (16 * h + l))
  | some h, none => some (UInt8.ofNat h)
  | none, _ => none

/-- The loop of `decode_hex_bytea`. The last turn of an odd number of characters reads the
zero behind them. -/
def decodeHexPairs : Text → Except DecodeError (List UInt8)
  | [] => .ok []
  | [high] =>
      match fromHexChars high 0 with
      | some byte => .ok [byte]
      | none => .error (.runtimeError (ascii "Invalid hex in bytea"))
  | high :: low :: rest =>
      match fromHexChars high low with
      | some byte => (decodeHexPairs rest).map (byte :: ·)
      | none => .error (.runtimeError (ascii "Invalid hex in bytea"))

def decodeHexBytea (fv : FieldView) : Except DecodeError (List UInt8) :=
  match fv.bytes with
  | 92 :: 120 :: rest => decodeHexPairs rest
  | _ => .error (.runtimeError (ascii "Unsupported bytea format"))

def decodeBinaryVector (fv : FieldView) : Except DecodeError (List UInt8) :=
  if fv.isBinary OidTypeRegistry.bytea then .ok fv.bytes else fv.decodeHexBytea

end FieldView

/-- The types that `as` can be asked for. -/
inductive FieldType where
  | monostate
  | bool
  | char
  | int16
  | int32
  | int64
  | uint16
  | uint32
  | uint64
  | float
  | double
  | string
  | stringView
  | bytes
  | byteSpan
  deriving DecidableEq, Repr

/-- The type that a value holds. -/
def typeOf : FieldValue → FieldType
  | .monostate => .monostate
  | .bool _ => .bool
  | .char _ => .char
  | .int16 _ => .int16
  | .int32 _ => .int32
  | .int64 _ => .int64
  | .uint16 _ => .uint16
  | .uint32 _ => .uint32
  | .uint64 _ => .uint64
  | .float _ => .float
  | .double _ => .double
  | .string _ => .string
  | .stringView _ => .stringView
  | .bytes _ => .bytes
  | .byteSpan _ => .byteSpan

/-- `FieldView::as<T>()` of a value that is not null. -/
def FieldView.decode (floats : FloatParser) (fv : FieldView) :
    FieldType → Except DecodeError FieldValue
  | .monostate => .ok .monostate
  | .bool => .ok (.bool fv.decodeBool)
  | .char => .ok (.char fv.decodeChar)
  | .int16 => fv.decodeInt16.map fun n => .int16 (Int16.ofInt n)
  | .int32 => fv.decodeInt32.map fun n => .int32 (Int32.ofInt n)
  | .int64 => fv.decodeInt64.map fun n => .int64 (Int64.ofInt n)
  | .uint16 => fv.decodeUint16.map fun n => .uint16 (UInt16.ofNat n.toNat)
  | .uint32 => fv.decodeUint32.map fun n => .uint32 (UInt32.ofNat n.toNat)
  | .uint64 => fv.decodeUint64.map fun n => .uint64 (UInt64.ofNat n.toNat)
  | .float => (fv.decodeFloat floats).map fun n => .float (UInt32.ofNat n)
  | .double => (fv.decodeDouble floats).map fun n => .double (UInt64.ofNat n)
  | .string => .ok (.string fv.bytes)
  | .stringView => .ok (.stringView fv.bytes)
  | .bytes => fv.decodeBinaryVector.map .bytes
  | .byteSpan => fv.decodeBinarySpan.map .byteSpan

/-- `FieldView::as<T>()`. -/
def FieldView.as (floats : FloatParser) (fv : FieldView) (t : FieldType) :
    Except DecodeError FieldValue :=
  if fv.isNull ∧ t ≠ .monostate then .error (.nullConversion "22002") else fv.decode floats t

/-- `FieldView::get<T>()`. -/
def FieldView.get (floats : FloatParser) (fv : FieldView) (t : FieldType) :
    Except DecodeError (Option FieldValue) :=
  if fv.isNull then .ok none else (fv.as floats t).map some

end Demiplane.Postgres

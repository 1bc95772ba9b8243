import Mathlib
import Demiplane.Text.Decimal

/-!
`Json::Value`, and the functions that write a field into one and read it back. What jsoncpp makes
of a value of another type than the one asked for is left open; a scalar is returned as it was
stored.

Each overload of `write_field` and `read_field` is a codec: what is stored under the key, if
anything is, and what is made of the member that is found there. A call is well-formed if its key
converts to the type that the overloads take.
-/

namespace Demiplane.Serialization

/-- `Json::Value`; the members of an object have different keys. -/
inductive Json where
  | null
  | int (v : Int64)
  | uint (v : UInt64)
  /-- A `double`, given by its bits. -/
  | real (bits : UInt64)
  | string (s : Text)
  | boolean (b : Bool)
  | array (items : List Json)
  | object (members : List (Text × Json))

namespace Json

/-- `operator[]` of an object and an assignment to what it returns. -/
def setMember (key : Text) (v : Json) : List (Text × Json) → List (Text × Json)
  | [] => [(key, v)]
  | (k, w) :: members => if k = key then (k, v) :: members else (k, w) :: setMember key v members

/-- `out[key] = v`; a null value becomes an object. -/
def set (out : Json) (key : Text) (v : Json) : Except String Json :=
  match out with
  | .null => .ok (.object (setMember key v []))
  | .object members => .ok (.object (setMember key v members))
  | _ => .error "requires objectValue"

def find? (inp : Json) (key : Text) : Option Json :=
  match inp with
  | .object members => members.lookup key
  | _ => none

def isMember (inp : Json) (key : Text) : Except String Bool :=
  match inp with
  | .null | .object _ => .ok (inp.find? key).isSome
  | _ => .error "requires objectValue or nullValue"

/-- `in[key]` of a constant value; a member that is missing is null. -/
def get (inp : Json) (key : Text) : Except String Json :=
  match inp with
  | .null | .object _ => .ok ((inp.find? key).getD .null)
  | _ => .error "requires objectValue or nullValue"

def getMemberNames : Json → Except String (List Text)
  | .null => .ok []
  | .object members => .ok (members.map Prod.fst)
  | _ => .error "value must be objectValue"

end Json

/-- The accessors of jsoncpp. -/
structure Jsoncpp where
  asString : Json → Except String Text
  asInt : Json → Except String Int32
  asInt64 : Json → Except String Int64
  asUInt64 : Json → Except String UInt64
  asBool : Json → Except String Bool
  asString_string : ∀ s, asString (.string s) = .ok s
  asInt_int : ∀ v : Int32, asInt (.int v.toInt64) = .ok v
  asInt64_int : ∀ v, asInt64 (.int v) = .ok v
  asUInt64_uint : ∀ v, asUInt64 (.uint v) = .ok v
  asBool_boolean : ∀ b, asBool (.boolean b) = .ok b

/-! ### Calls -/

/-- The types of the keys. -/
inductive KeyType where
  | string
  | stringView
  deriving DecidableEq

/-- The implicit conversions; the constructor of a string from a view is explicit. -/
def KeyType.convertsTo : KeyType → KeyType → Bool
  | .stringView, .string => false
  | _, _ => true

/-- Every overload of `write_field` and `read_field` takes a `const std::string& key`. -/
def keyParameter : KeyType := .string

/-- The overloads for one type of a value: what `write_field` stores of it, or that it stores
nothing, and what `read_field` makes of a member. There is no such function where the overload is
a template that cannot be instantiated. -/
structure Codec (V : Type) where
  encode : Option (V → Except String (Option Json))
  decode : Option (Json → Except String V)

variable {V : Type}

/-- `write_field(out, key, v)` with a key of the type `k`; `none` if the call is ill-formed. -/
def writeField (k : KeyType) (codec : Codec V) :
    Option (Json → Text → V → Except String Json) := do
  guard (k.convertsTo keyParameter)
  let encode ← codec.encode
  some fun out key v => do
    match ← encode v with
    | some j => out.set key j
    | none => .ok out

/-- `read_field(in, key, v)`; the value is `none` if the field is missing. -/
def readField (k : KeyType) (codec : Codec V) :
    Option (Json → Text → Except String (Option V)) := do
  guard (k.convertsTo keyParameter)
  let decode ← codec.decode
  some fun inp key => do
    if ← inp.isMember key then
      let j ← inp.get key
      return some (← decode j)
    else return none

theorem writeField_stringView (codec : Codec V) : writeField .stringView codec = none := rfl

theorem readField_stringView (codec : Codec V) : readField .stringView codec = none := rfl

section Overloads

variable (lib : Jsoncpp)

def stringCodec : Codec Text := ⟨some fun v => .ok (some (.string v)), some lib.asString⟩

example : (writeField .string (stringCodec lib)).isSome := rfl

def intCodec : Codec Int32 := ⟨some fun v => .ok (some (.int v.toInt64)), some lib.asInt⟩

/-- `std::size_t`. -/
def sizeCodec : Codec UInt64 := ⟨some fun v => .ok (some (.uint v)), some lib.asUInt64⟩

def boolCodec : Codec Bool := ⟨some fun v => .ok (some (.boolean v)), some lib.asBool⟩

/-- `std::chrono::duration`, by its count. -/
def durationCodec : Codec Int64 := ⟨some fun v => .ok (some (.int v)), some lib.asInt64⟩

/-- An enumeration, by its underlying type `E` and the casts to `int` and back. -/
def enumCodec {E : Type} (toInt : E → Int32) (ofInt : Int32 → E) : Codec E :=
  ⟨some fun v => .ok (some (.int (toInt v).toInt64)),
    some fun j => do return ofInt (← lib.asInt j)⟩

/-- `std::optional`; nothing is written for an empty one. The key is passed on as a string. -/
def optionalCodec (codec : Codec V) : Codec (Option V) where
  encode := codec.encode.map fun encode v =>
    match v with
    | some v => encode v
    | none => .ok none
  decode := codec.decode.map fun decode j => do return some (← decode j)

/-- `std::map<std::string, std::string>`. -/
abbrev StringMap := Std.ExtTreeMap Text Text

def mapCodec : Codec StringMap where
  encode := some fun v => do
    return some (← v.toList.foldlM (fun obj e => obj.set e.1 (.string e.2)) (.object []))
  decode := some fun obj => do
    (← obj.getMemberNames).foldlM
      (fun v mk => do return v.insert mk (← lib.asString (← obj.get mk))) ∅

end Overloads

end Demiplane.Serialization

import Demiplane.Serialization.Json

/-!
`ConfigInterface`: a configuration is written field by field, by the list of its fields, and read
the same way into a builder that holds the default values. It is checked before it is written and
after it is read. The policy of a field says in which of the two directions it is left out.

The names of the fields are passed as views, and the functions for JSON take strings.
-/

namespace Demiplane.Serialization

inductive FieldPolicy where
  | normal
  | secret
  | excluded
  | readOnly
  deriving DecidableEq

namespace FieldPolicy

/-- The policies that `serialize_one_field` writes. -/
def writes (p : FieldPolicy) : Bool := p != .secret && p != .excluded

/-- The policies that `deserialize_one_field` reads. -/
def reads (p : FieldPolicy) : Bool := p != .excluded && p != .readOnly

end FieldPolicy

/-- `Field<&D::member, "name", policy>`, with the overloads for the type of the member. -/
structure Field (D : Type) where
  Value : Type
  name : Text
  policy : FieldPolicy
  codec : Codec Value
  get : D → Value
  set : Value → D → D

/-- `F::name.view()` is a `std::string_view`. -/
def nameView : KeyType := .stringView

/-- A class that derives from `ConfigInterface`. -/
structure ConfigInterface (D : Type) where
  fields : List (Field D)
  /-- What `Builder{}` holds. -/
  builder : D
  validate : D → Except String Unit

variable {D : Type}

def serializeOneField (f : Field D) : Option (D → Json → Except String Json) :=
  if f.policy.writes then
    (writeField nameView f.codec).map fun write d out => write out f.name (f.get d)
  else some fun _ out => .ok out

def deserializeOneField (f : Field D) : Option (Json → D → Except String D) :=
  if f.policy.reads then
    (readField nameView f.codec).map fun read inp builder => do
      match ← read inp f.name with
      | some val => return f.set val builder
      | none => return builder
  else some fun _ builder => .ok builder

namespace ConfigInterface

variable (cfg : ConfigInterface D)

/-- The instance of the template, if it is well-formed: every call in it has to be. -/
def serialize : Option (D → Except String Json) := do
  let steps ← cfg.fields.mapM serializeOneField
  some fun d => do
    cfg.validate d
    steps.foldlM (fun out step => step d out) .null

def finalize (d : D) : Except String D := do
  cfg.validate d
  return d

def deserialize : Option (Json → Except String D) := do
  let steps ← cfg.fields.mapM deserializeOneField
  some fun inp => do
    let builder ← steps.foldlM (fun builder step => step inp builder) cfg.builder
    cfg.finalize builder

/-- Every secret field has its default value. -/
def withoutSecrets (d : D) : D :=
  cfg.fields.foldl (fun d f => if f.policy = .secret then f.set (f.get cfg.builder) d else d) d

/-- Written and read again, `d` comes back as `d'`. -/
def RoundTrips (d d' : D) : Prop :=
  ∃ write read, cfg.serialize = some write ∧ cfg.deserialize = some read ∧
    (write d >>= read) = .ok d'

/-- Reading throws or gives a configuration that passes the check. -/
def ReadsValid (inp : Json) : Prop :=
  ∃ read, cfg.deserialize = some read ∧ ∀ d, read inp = .ok d → cfg.validate d = .ok ()

end ConfigInterface

/-- The overload for a member that is a configuration itself. -/
def nestedCodec (cfg : ConfigInterface D) : Codec D where
  encode := cfg.serialize.map fun write v => do return some (← write v)
  decode := cfg.deserialize

/-! ### Calls that no overload takes -/

theorem mapM_eq_none {α β : Type*} {f : α → Option β} {a : α} {as : List α} (ha : a ∈ as)
    (h : f a = none) : as.mapM f = none := by
  induction as with
  | nil => cases ha
  | cons b as ih =>
    rw [List.mapM_cons]
    rcases List.mem_cons.mp ha with rfl | ha
    · rw [h]
      rfl
    · rw [ih ha]
      cases f b <;> rfl

namespace ConfigInterface

variable {cfg : ConfigInterface D} {f : Field D}

/-- A class with a field that is written has no `serialize` for JSON. -/
theorem serialize_eq_none (hf : f ∈ cfg.fields) (h : f.policy.writes) : cfg.serialize = none := by
  have hone : serializeOneField f = none := by
    rw [serializeOneField, if_pos h, nameView, writeField_stringView, Option.map_none]
  rw [serialize, mapM_eq_none hf hone]
  rfl

/-- A class with a field that is read has no `deserialize` for JSON. -/
theorem deserialize_eq_none (hf : f ∈ cfg.fields) (h : f.policy.reads) :
    cfg.deserialize = none := by
  have hone : deserializeOneField f = none := by
    rw [deserializeOneField, if_pos h, nameView, readField_stringView, Option.map_none]
  rw [deserialize, mapM_eq_none hf hone]
  rfl

theorem not_roundTrips (hf : f ∈ cfg.fields) (h : f.policy.writes) (d d' : D) :
    ¬ cfg.RoundTrips d d' := by
  rintro ⟨write, read, hwrite, -⟩
  rw [serialize_eq_none hf h] at hwrite
  cases hwrite

theorem not_readsValid (hf : f ∈ cfg.fields) (h : f.policy.reads) (inp : Json) :
    ¬ cfg.ReadsValid inp := by
  rintro ⟨read, hread, -⟩
  rw [deserialize_eq_none hf h] at hread
  cases hread

end ConfigInterface

end Demiplane.Serialization

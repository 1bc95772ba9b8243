import Demiplane.Query.Dialect

/-!
`postgres::Params` and `postgres::ParamSink`. The arrays hold pointers into two deques,
whose elements stay where they are when another one is added, so that a pointer is the
number of the element that it points to.
-/

namespace Demiplane.Query

open Text

/-- `data()` of an empty vector is null, and so is the value of an SQL NULL. -/
inductive Pointer where
  | null
  | str (index : ℕ)
  | chunk (index : ℕ)
  deriving DecidableEq, Repr

structure Params where
  values : List Pointer
  lengths : List Int32
  formats : List ℕ
  oids : List ℕ
  strData : List Text
  binaryChunks : List (List UInt8)
  deriving DecidableEq, Repr

namespace FormatRegistry

abbrev text : ℕ := 0
abbrev binary : ℕ := 1

end FormatRegistry

namespace OidTypeRegistry

abbrev int2 : ℕ := 21
abbrev int4 : ℕ := 23
abbrev int8 : ℕ := 20
abbrev float4 : ℕ := 700
abbrev float8 : ℕ := 701
abbrev numeric : ℕ := 1700
abbrev char : ℕ := 18
abbrev text : ℕ := 25
abbrev bytea : ℕ := 17
abbrev bool : ℕ := 16

end OidTypeRegistry

/-- The bytes of a number in network byte order. -/
def bigEndian (width value : ℕ) : List UInt8 :=
  (List.range width).reverse.map fun i => UInt8.ofNat (value / 256 ^ i)

namespace Params

def empty : Params := ⟨[], [], [], [], [], []⟩

def pushEntry (p : Params) (value : Pointer) (length : Int32) (format oid : ℕ) : Params :=
  { p with
    values := p.values ++ [value]
    lengths := p.lengths ++ [length]
    formats := p.formats ++ [format]
    oids := p.oids ++ [oid] }

/-- A string of its own in `str_data`, bound as text. -/
def bindText (p : Params) (str : Text) (oid : ℕ) : Params :=
  { p with strData := p.strData ++ [str] }.pushEntry (.str p.strData.length)
    (Int32.ofNat str.length) FormatRegistry.text oid

/-- A vector of its own in `binary_chunks`, bound as binary. -/
def bindBinary (p : Params) (bytes : List UInt8) (oid : ℕ) : Params :=
  { p with binaryChunks := p.binaryChunks ++ [bytes] }.pushEntry
    (if bytes = [] then .null else .chunk p.binaryChunks.length) (Int32.ofNat bytes.length)
    FormatRegistry.binary oid

/-- The overloads of `ParamSink::bind_one`. Unsigned numbers go into the next larger
signed type, and as text into `numeric` where there is none. -/
def bindOne (p : Params) : FieldValue → Params
  | .monostate => p.pushEntry .null 0 FormatRegistry.text 0
  | .bool val => p.bindBinary [if val then 1 else 0] OidTypeRegistry.bool
  | .char val => p.bindBinary [val] OidTypeRegistry.char
  | .int16 val => p.bindBinary (bigEndian 2 val.toUInt16.toNat) OidTypeRegistry.int2
  | .int32 val => p.bindBinary (bigEndian 4 val.toUInt32.toNat) OidTypeRegistry.int4
  | .int64 val => p.bindBinary (bigEndian 8 val.toUInt64.toNat) OidTypeRegistry.int8
  | .uint16 val => p.bindBinary (bigEndian 4 val.toNat) OidTypeRegistry.int4
  | .uint32 val => p.bindBinary (bigEndian 8 val.toNat) OidTypeRegistry.int8
  | .uint64 val => p.bindText (decimal val.toNat) OidTypeRegistry.numeric
  | .float bits => p.bindBinary (bigEndian 4 bits.toNat) OidTypeRegistry.float4
  | .double bits => p.bindBinary (bigEndian 8 bits.toNat) OidTypeRegistry.float8
  | .string val => p.bindText val OidTypeRegistry.text
  | .stringView val => p.bindText val OidTypeRegistry.text
  | .byteSpan val => p.bindBinary val OidTypeRegistry.bytea
  | .bytes val => p.bindBinary val OidTypeRegistry.bytea

/-- `ParamSink::push`, which copies the value in both of its overloads. -/
def push (p : Params) (value : FieldValue) : Params × ℕ :=
  (p.bindOne value, (p.bindOne value).values.length)

/-- The sink after a sequence of pushes. -/
def pushAll (p : Params) (values : List FieldValue) : Params :=
  values.foldl (fun p value => (p.push value).1) p

theorem pushAll_append (p : Params) (values more : List FieldValue) :
    p.pushAll (values ++ more) = (p.pushAll values).pushAll more :=
  List.foldl_append

/-! ### Entries -/

/-- What libpq finds for one parameter. -/
structure Entry where
  bytes : Option (List UInt8)
  length : Int32
  format : ℕ
  oid : ℕ
  deriving DecidableEq, Repr

def deref (p : Params) : Pointer → Option (List UInt8)
  | .null => none
  | .str index => p.strData[index]?
  | .chunk index => p.binaryChunks[index]?

def entries (p : Params) : List Entry :=
  (p.values.zip (p.lengths.zip (p.formats.zip p.oids))).map fun e =>
    ⟨p.deref e.1, e.2.1, e.2.2.1, e.2.2.2⟩

def textEntry (str : Text) (oid : ℕ) : Entry :=
  ⟨some str, Int32.ofNat str.length, FormatRegistry.text, oid⟩

def binaryEntry (bytes : List UInt8) (oid : ℕ) : Entry :=
  ⟨if bytes = [] then none else some bytes, Int32.ofNat bytes.length, FormatRegistry.binary, oid⟩

/-- The encoding of a value as a parameter. -/
def encode : FieldValue → Entry
  | .monostate => ⟨none, 0, FormatRegistry.text, 0⟩
  | .bool val => binaryEntry [if val then 1 else 0] OidTypeRegistry.bool
  | .char val => binaryEntry [val] OidTypeRegistry.char
  | .int16 val => binaryEntry (bigEndian 2 val.toUInt16.toNat) OidTypeRegistry.int2
  | .int32 val => binaryEntry (bigEndian 4 val.toUInt32.toNat) OidTypeRegistry.int4
  | .int64 val => binaryEntry (bigEndian 8 val.toUInt64.toNat) OidTypeRegistry.int8
  | .uint16 val => binaryEntry (bigEndian 4 val.toNat) OidTypeRegistry.int4
  | .uint32 val => binaryEntry (bigEndian 8 val.toNat) OidTypeRegistry.int8
  | .uint64 val => textEntry (decimal val.toNat) OidTypeRegistry.numeric
  | .float bits => binaryEntry (bigEndian 4 bits.toNat) OidTypeRegistry.float4
  | .double bits => binaryEntry (bigEndian 8 bits.toNat) OidTypeRegistry.float8
  | .string val => textEntry val OidTypeRegistry.text
  | .stringView val => textEntry val OidTypeRegistry.text
  | .byteSpan val => binaryEntry val OidTypeRegistry.bytea
  | .bytes val => binaryEntry val OidTypeRegistry.bytea

/-- A pointer points to an element that is there. -/
def Points (p : Params) : Pointer → Prop
  | .null => True
  | .str index => index < p.strData.length
  | .chunk index => index < p.binaryChunks.length

/-- The four arrays have one length, and no pointer of theirs dangles. -/
structure Valid (p : Params) : Prop where
  lengths : p.lengths.length = p.values.length
  formats : p.formats.length = p.values.length
  oids : p.oids.length = p.values.length
  points : ∀ value ∈ p.values, p.Points value

theorem valid_empty : Valid empty := ⟨rfl, rfl, rfl, by simp [empty]⟩

/-- The deques only grow at their ends. -/
structure Extends (p q : Params) : Prop where
  strData : p.strData <+: q.strData
  binaryChunks : p.binaryChunks <+: q.binaryChunks

theorem Extends.points {p q : Params} (h : Extends p q) {value : Pointer} (hp : p.Points value) :
    q.Points value := by
  cases value with
  | null => trivial
  | str index => exact lt_of_lt_of_le hp h.strData.length_le
  | chunk index => exact lt_of_lt_of_le hp h.binaryChunks.length_le

theorem Extends.deref {p q : Params} (h : Extends p q) {value : Pointer} (hp : p.Points value) :
    q.deref value = p.deref value := by
  cases value with
  | null => rfl
  | str index =>
    obtain ⟨more, hmore⟩ := h.strData
    simp only [Params.deref, ← hmore]
    exact List.getElem?_append_left hp
  | chunk index =>
    obtain ⟨more, hmore⟩ := h.binaryChunks
    simp only [Params.deref, ← hmore]
    exact List.getElem?_append_left hp

/-- One more entry behind those of `p`, whose deques may have grown to those of `q`. -/
theorem entries_pushEntry {p q : Params} (hp : Valid p) (hq : Extends p q)
    (harrays : q.values = p.values ∧ q.lengths = p.lengths ∧ q.formats = p.formats ∧
      q.oids = p.oids) (value : Pointer) (hvalue : q.Points value) (length : Int32)
    (format oid : ℕ) :
    Valid (q.pushEntry value length format oid) ∧
      (q.pushEntry value length format oid).entries =
        p.entries ++ [⟨q.deref value, length, format, oid⟩] := by
  obtain ⟨hvalues, hlengths, hformats, hoids⟩ := harrays
  constructor
  · refine ⟨?_, ?_, ?_, ?_⟩
    · simp [pushEntry, hvalues, hlengths, hp.lengths]
    · simp [pushEntry, hvalues, hformats, hp.formats]
    · simp [pushEntry, hvalues, hoids, hp.oids]
    · intro other hmem
      have hpoints : q.Points other := by
        rcases List.mem_append.mp hmem with hold | hnew
        · exact hq.points (hp.points other (hvalues ▸ hold))
        · rwa [List.mem_singleton.mp hnew]
      exact (Extends.mk (List.prefix_refl _) (List.prefix_refl _)).points hpoints
  · have hzip : (q.pushEntry value length format oid).entries =
        ((p.values.zip (p.lengths.zip (p.formats.zip p.oids))) ++
          [(value, length, format, oid)]).map fun e => ⟨q.deref e.1, e.2.1, e.2.2.1, e.2.2.2⟩ := by
      have hone : p.formats.length = p.oids.length := hp.formats.trans hp.oids.symm
      simp only [entries, pushEntry, hvalues, hlengths, hformats, hoids]
      rw [List.zip_append hone, List.zip_append (by simp [hp.lengths, hp.formats, hp.oids]),
        List.zip_append (by simp [hp.lengths, hp.formats, hp.oids])]
      rfl
    rw [hzip, List.map_append, entries]
    congr 1
    apply List.map_congr_left
    intro e he
    rw [hq.deref (hp.points e.1 (List.of_mem_zip he).1)]

theorem entries_bindText {p : Params} (hp : Valid p) (str : Text) (oid : ℕ) :
    Valid (p.bindText str oid) ∧
      (p.bindText str oid).entries = p.entries ++ [textEntry str oid] := by
  have h := entries_pushEntry (q := { p with strData := p.strData ++ [str] }) hp
    ⟨List.prefix_append _ _, List.prefix_refl _⟩ ⟨rfl, rfl, rfl, rfl⟩
    (.str p.strData.length) (by simp [Points]) (Int32.ofNat str.length)
    FormatRegistry.text oid
  simpa [bindText, textEntry, deref] using h

theorem entries_bindBinary {p : Params} (hp : Valid p) (bytes : List UInt8) (oid : ℕ) :
    Valid (p.bindBinary bytes oid) ∧
      (p.bindBinary bytes oid).entries = p.entries ++ [binaryEntry bytes oid] := by
  have h := entries_pushEntry (q := { p with binaryChunks := p.binaryChunks ++ [bytes] }) hp
    ⟨List.prefix_refl _, List.prefix_append _ _⟩ ⟨rfl, rfl, rfl, rfl⟩
    (if bytes = [] then .null else .chunk p.binaryChunks.length)
    (by split_ifs <;> simp [Points]) (Int32.ofNat bytes.length) FormatRegistry.binary oid
  by_cases hempty : bytes = []
  · simpa [bindBinary, binaryEntry, deref, hempty] using h
  · simpa [bindBinary, binaryEntry, deref, hempty] using h

/-- Every overload of `bind_one` adds one entry, the encoding of its value, and leaves
the entries before it alone. -/
theorem entries_bindOne {p : Params} (hp : Valid p) (value : FieldValue) :
    Valid (p.bindOne value) ∧ (p.bindOne value).entries = p.entries ++ [encode value] := by
  cases value with
  | monostate =>
    exact entries_pushEntry hp ⟨List.prefix_refl _, List.prefix_refl _⟩ ⟨rfl, rfl, rfl, rfl⟩
      .null trivial 0 FormatRegistry.text 0
  | uint64 val => exact entries_bindText hp _ _
  | string val => exact entries_bindText hp _ _
  | stringView val => exact entries_bindText hp _ _
  | _ => exact entries_bindBinary hp _ _

theorem Valid.length_entries {p : Params} (hp : Valid p) : p.entries.length = p.values.length := by
  simp [entries, hp.lengths, hp.formats, hp.oids]

theorem push_snd {p : Params} (hp : Valid p) (value : FieldValue) :
    (p.push value).2 = p.entries.length + 1 := by
  obtain ⟨hvalid, hentries⟩ := entries_bindOne hp value
  rw [push, ← hvalid.length_entries, hentries]
  simp

theorem entries_pushAll {p : Params} (hp : Valid p) (values : List FieldValue) :
    (p.pushAll values).entries = p.entries ++ values.map encode := by
  induction values generalizing p with
  | nil => simp [pushAll]
  | cons value values ih =>
    obtain ⟨hvalid, hentries⟩ := entries_bindOne hp value
    change ((p.bindOne value).pushAll values).entries = _
    rw [ih hvalid, hentries, List.append_assoc]
    rfl

end Params

end Demiplane.Query

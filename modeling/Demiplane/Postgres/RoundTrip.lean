import Mathlib.Data.List.DropRight
import Mathlib.Data.Nat.Digits.Lemmas
import Demiplane.Postgres.WireFormats

/-!
A parameter sent to the server and sent back: `ParamSink` binds a value, the server keeps
it as a value of the parameter's type and returns it in the binary format of that type, and
`FieldView::as` reads it into the type it was bound from.
-/

namespace Demiplane.Postgres

open Text Query

/-! ### The server -/

/-- The values of the types that `ParamSink` binds. -/
inductive PgValue where
  | bool (b : Bool)
  | char (c : UInt8)
  | integer (type : IntColumn) (v : ℤ) (holds : type.range.Holds v)
  | numeric (n : Numeric)
  | text (t : Text)
  | bytea (bytes : List UInt8)

/-- The input of a `numeric` without an exponent. -/
def numericIn (t : Text) : Option Numeric :=
  if t = ascii "NaN" then some .nan
  else
    let negative := t.head? == some hyphen
    let rest := if negative then t.tail else t
    let whole := rest.takeWhile isDigit
    if rest = ascii "Infinity" then some (.infinity negative)
    else
      match rest.dropWhile isDigit with
      | [] => if whole = [] then none else some (.finite negative (number whole) [])
      | 46 :: fraction =>
          if fraction.all isDigit ∧ ¬ (whole = [] ∧ fraction = []) then
            some (.finite negative (number whole)
              (fraction.map fun c => ⟨(c.toNat - 48) % 10, Nat.mod_lt _ (by decide)⟩))
          else none
      | _ => none

/-- The binary input of an integer, which checks the number of its bytes. -/
def intReceive (type : IntColumn) (bytes : List UInt8) : Option PgValue :=
  if bytes.length = type.width then
    some (.integer type (type.range.wrap (ofBigEndian bytes))
      (IntType.wrap_holds (by cases type <;> decide) _))
  else none

/-- In text `ParamSink` sends only `text` and `numeric`. -/
def receiveText (oid : ℕ) (sent : Text) : Option PgValue :=
  if oid = OidTypeRegistry.text then some (.text sent)
  else if oid = OidTypeRegistry.numeric then (numericIn sent).map .numeric
  else none

def receiveBinary (oid : ℕ) (sent : List UInt8) : Option PgValue :=
  if oid = OidTypeRegistry.bool then
    if sent.length = 1 then some (.bool (sent.headD 0 != 0)) else none
  else if oid = OidTypeRegistry.char then
    if sent.length = 1 then some (.char (sent.headD 0)) else none
  else if oid = OidTypeRegistry.int2 then intReceive .int2 sent
  else if oid = OidTypeRegistry.int4 then intReceive .int4 sent
  else if oid = OidTypeRegistry.int8 then intReceive .int8 sent
  else if oid = OidTypeRegistry.bytea then some (.bytea sent)
  else none

/-- The value of a parameter that is not null. A text ends at its first zero, whatever its
length is said to be; of a binary value as many bytes are sent as its length says. -/
def receive (e : Params.Entry) : Option PgValue :=
  match e.bytes with
  | none => none
  | some bytes =>
      if e.format = FormatRegistry.text then receiveText e.oid (bytes.takeWhile (· ≠ 0))
      else if e.length < 0 then none
      else receiveBinary e.oid (bytes.take e.length.toInt.toNat)

/-- The digits behind the decimal point in groups of four. -/
def fractionGroups : List (Fin 10) → List ℕ
  | [] => []
  | [a] => [1000 * a.val]
  | [a, b] => [1000 * a.val + 100 * b.val]
  | [a, b, c] => [1000 * a.val + 100 * b.val + 10 * c.val]
  | a :: b :: c :: d :: rest =>
      (1000 * a.val + 100 * b.val + 10 * c.val + d.val) :: fractionGroups rest

/-- The header of the binary format of `numeric`. -/
def numericHeader (ndigits : ℕ) (weight : ℤ) (sign dscale : ℕ) : List UInt8 :=
  bigEndian 2 ndigits ++ bigEndian 2 (weight % 65536).toNat ++ bigEndian 2 sign ++
    bigEndian 2 dscale

/-- The binary format of `numeric`: groups of four digits without the zeros at both ends,
and the weight of the first group that is left. -/
def numericSend : Numeric → List UInt8
  | .nan => numericHeader 0 0 0xC000 0
  | .infinity negative => numericHeader 0 0 (if negative then 0xF000 else 0xD000) 32
  | .finite negative whole fraction =>
      let wholeGroups := (Nat.digits 10000 whole).reverse
      let groups := wholeGroups ++ fractionGroups fraction
      let kept := (groups.dropWhile (· == 0)).rdropWhile (· == 0)
      let weight : ℤ :=
        if kept = [] then 0
        else wholeGroups.length - 1 - (groups.takeWhile (· == 0)).length
      numericHeader kept.length weight (if negative ∧ kept ≠ [] then 0x4000 else 0)
        fraction.length ++ kept.flatMap (bigEndian 2)

/-- A value as a column of a result in binary. -/
def echo : PgValue → FieldView
  | .bool b => ⟨[if b then 1 else 0], false, FormatRegistry.binary, OidTypeRegistry.bool⟩
  | .char c => ⟨[c], false, FormatRegistry.binary, OidTypeRegistry.char⟩
  | .integer type v holds => (Column.binary type v holds).view
  | .numeric n => ⟨numericSend n, false, FormatRegistry.binary, OidTypeRegistry.numeric⟩
  | .text t => ⟨t, false, FormatRegistry.binary, OidTypeRegistry.text⟩
  | .bytea bytes => ⟨bytes, false, FormatRegistry.binary, OidTypeRegistry.bytea⟩

/-- The value bound as a parameter is kept by the server, and what it returns is read as
that value. -/
def ComesBack (floats : FloatParser) (v : FieldValue) : Prop :=
  ∃ w, receive (Params.encode v) = some w ∧ (echo w).as floats (typeOf v) = .ok v

/-- The values that `ParamSink` binds without loss: the characters of a string go up to a
zero, and an empty vector is a null. -/
def Sendable : FieldValue → Prop
  | .bool _ | .char _ => True
  | .int16 _ | .int32 _ | .int64 _ => True
  | .uint16 _ | .uint32 _ | .uint64 _ => True
  | .string s => (0 : UInt8) ∉ s
  | .bytes bytes => bytes ≠ []
  | _ => False

/-! ### Integers -/

namespace Target

/-- The type that a number is sent as. -/
def column : Target → IntColumn
  | int16 => .int2
  | int32 => .int4
  | int64 => .int8
  | uint16 => .int4
  | uint32 => .int8
  | uint64 => .int8

theorem knows_column (t : Target) : t.Knows t.column := by
  cases t <;> decide

theorem column_holds {t : Target} (ht : t ≠ uint64) {n : ℤ} (h : t.range.Holds n) :
    t.column.range.Holds n := by
  obtain ⟨hleast, hbound⟩ := h
  cases t with
  | int16 => exact ⟨hleast, hbound⟩
  | int32 => exact ⟨hleast, hbound⟩
  | int64 => exact ⟨hleast, hbound⟩
  | uint16 =>
    change 0 ≤ n at hleast
    change n < 2 ^ 16 at hbound
    exact ⟨by change -2 ^ 31 ≤ n; omega, by change n < 2 ^ 31; omega⟩
  | uint32 =>
    change 0 ≤ n at hleast
    change n < 2 ^ 32 at hbound
    exact ⟨by change -2 ^ 63 ≤ n; omega, by change n < 2 ^ 63; omega⟩
  | uint64 => exact absurd rfl ht

theorem typeOf_box (t : Target) (n : ℤ) : typeOf (t.box n) = t.fieldType := by
  cases t <;> rfl

end Target

/-- A number is sent in the binary format of the type that it is sent as. -/
theorem encode_box {t : Target} (ht : t ≠ .uint64) {n : ℤ} (h : t.range.Holds n) :
    Params.encode (t.box n) = Params.binaryEntry (t.column.binary n) t.column.oid := by
  cases t with
  | int16 =>
    have hn : (Int16.ofInt n).toUInt16.toNat = (n % 2 ^ 16).toNat := by
      change (Int16.ofInt n).toBitVec.toNat = _
      rw [Int16.toBitVec_ofInt, BitVec.toNat_ofInt]
      rfl
    exact congrArg (fun k => Params.binaryEntry (bigEndian 2 k) OidTypeRegistry.int2) hn
  | int32 =>
    have hn : (Int32.ofInt n).toUInt32.toNat = (n % 2 ^ 32).toNat := by
      change (Int32.ofInt n).toBitVec.toNat = _
      rw [Int32.toBitVec_ofInt, BitVec.toNat_ofInt]
      rfl
    exact congrArg (fun k => Params.binaryEntry (bigEndian 4 k) OidTypeRegistry.int4) hn
  | int64 =>
    have hn : (Int64.ofInt n).toUInt64.toNat = (n % 2 ^ 64).toNat := by
      change (Int64.ofInt n).toBitVec.toNat = _
      rw [Int64.toBitVec_ofInt, BitVec.toNat_ofInt]
      rfl
    exact congrArg (fun k => Params.binaryEntry (bigEndian 8 k) OidTypeRegistry.int8) hn
  | uint16 =>
    have hn : (UInt16.ofNat n.toNat).toNat = (n % 2 ^ 32).toNat := by
      obtain ⟨hleast, hbound⟩ := h
      change 0 ≤ n at hleast
      change n < 2 ^ 16 at hbound
      rw [UInt16.toNat_ofNat']
      omega
    exact congrArg (fun k => Params.binaryEntry (bigEndian 4 k) OidTypeRegistry.int4) hn
  | uint32 =>
    have hn : (UInt32.ofNat n.toNat).toNat = (n % 2 ^ 64).toNat := by
      obtain ⟨hleast, hbound⟩ := h
      change 0 ≤ n at hleast
      change n < 2 ^ 32 at hbound
      rw [UInt32.toNat_ofNat']
      omega
    exact congrArg (fun k => Params.binaryEntry (bigEndian 8 k) OidTypeRegistry.int8) hn
  | uint64 => exact absurd rfl ht

/-- Bytes of which the length fits into an `int` are sent as they are. -/
theorem receive_binaryEntry {bytes : List UInt8} (hne : bytes ≠ [])
    (hlength : bytes.length < 2 ^ 31) (oid : ℕ) :
    receive (Params.binaryEntry bytes oid) = receiveBinary oid bytes := by
  have hint : (Int32.ofNat bytes.length).toInt = bytes.length :=
    Int32.toInt_ofNat_of_lt hlength
  have hnonneg : ¬ Int32.ofNat bytes.length < 0 := by
    rw [Int32.lt_iff_toInt_lt, hint]
    simp
  simp only [receive, Params.binaryEntry, if_neg hne]
  rw [if_neg (by decide), if_neg hnonneg, hint, Int.toNat_natCast, List.take_length]

theorem intReceive_binary (type : IntColumn) {v : ℤ} (holds : type.range.Holds v) :
    intReceive type (type.binary v) = some (.integer type v holds) := by
  have hwrap : type.range.wrap (ofBigEndian (type.binary v)) = v := by
    rw [type.ofBigEndian_binary]
    exact (IntType.wrap_eq_iff (by cases type <;> decide) le_rfl v).mpr holds
  rw [intReceive, if_pos (type.length_binary v)]
  simp only [hwrap]

theorem receive_integer (type : IntColumn) {v : ℤ} (holds : type.range.Holds v) :
    receive (Params.binaryEntry (type.binary v) type.oid) = some (.integer type v holds) := by
  have hlength := type.length_binary v
  have hpos : 0 < type.width ∧ type.width < 2 ^ 31 := by cases type <;> decide
  have hne : type.binary v ≠ [] := List.length_pos_iff.mp (hlength ▸ hpos.1)
  rw [receive_binaryEntry hne (hlength ▸ hpos.2), ← intReceive_binary type holds]
  cases type <;> rfl

/-- The type that a number is sent as is one that the number's own decoder knows. -/
theorem as_column (floats : FloatParser) (t : Target) {n : ℤ} (h : t.range.Holds n)
    (hcolumn : t.column.range.Holds n) :
    (Column.binary t.column n hcolumn).view.as floats t.fieldType = .ok (t.box n) := by
  rw [FieldView.as_integer floats rfl, Column.decodeInteger_known t.knows_column,
    (IntType.wrap_eq_iff t.one_le_bits (Target.bits_le_of_knows t.knows_column) n).mpr h]
  rfl

theorem comesBack_box (floats : FloatParser) {t : Target} (ht : t ≠ .uint64) {n : ℤ}
    (h : t.range.Holds n) : ComesBack floats (t.box n) := by
  have hcolumn := Target.column_holds ht h
  refine ⟨.integer t.column n hcolumn, ?_, ?_⟩
  · rw [encode_box ht h, receive_integer]
  · rw [Target.typeOf_box]
    exact as_column floats t h hcolumn

/-- A number of one of the types that are sent in binary. -/
theorem exists_box {v : FieldValue} {n : ℤ} (h : numberOf v = some n)
    (hv : ∀ m, v ≠ .uint64 m) : ∃ t ≠ Target.uint64, t.range.Holds n ∧ t.box n = v := by
  cases v with
  | int16 m =>
    obtain rfl := Option.some.inj h
    exact ⟨.int16, by decide, ⟨m.le_toInt, m.toInt_lt⟩, congrArg _ (Int16.ofInt_toInt m)⟩
  | int32 m =>
    obtain rfl := Option.some.inj h
    exact ⟨.int32, by decide, ⟨m.le_toInt, m.toInt_lt⟩, congrArg _ (Int32.ofInt_toInt m)⟩
  | int64 m =>
    obtain rfl := Option.some.inj h
    exact ⟨.int64, by decide, ⟨m.le_toInt, m.toInt_lt⟩, congrArg _ (Int64.ofInt_toInt m)⟩
  | uint16 m =>
    obtain rfl := Option.some.inj h
    have hlt : (m.toNat : ℤ) < 2 ^ 16 := by exact_mod_cast m.toNat_lt
    exact ⟨.uint16, by decide, ⟨Int.natCast_nonneg _, hlt⟩, congrArg _ UInt16.ofNat_toNat⟩
  | uint32 m =>
    obtain rfl := Option.some.inj h
    have hlt : (m.toNat : ℤ) < 2 ^ 32 := by exact_mod_cast m.toNat_lt
    exact ⟨.uint32, by decide, ⟨Int.natCast_nonneg _, hlt⟩, congrArg _ UInt32.ofNat_toNat⟩
  | uint64 m => exact absurd rfl (hv m)
  | _ => cases h

theorem comesBack_integer (floats : FloatParser) {v : FieldValue} {n : ℤ}
    (h : numberOf v = some n) (hv : ∀ m, v ≠ .uint64 m) : ComesBack floats v := by
  obtain ⟨t, ht, hn, rfl⟩ := exists_box h hv
  exact comesBack_box floats ht hn

/-! ### Texts -/

theorem takeWhile_ne_zero {s : Text} (h : (0 : UInt8) ∉ s) : s.takeWhile (· ≠ 0) = s := by
  rw [List.takeWhile_eq_self_iff]
  intro c hc
  simpa using fun hzero : c = 0 => h (hzero ▸ hc)

theorem receive_textEntry {s : Text} (h : (0 : UInt8) ∉ s) (oid : ℕ) :
    receive (Params.textEntry s oid) = receiveText oid s := by
  simp only [receive, Params.textEntry, if_true]
  rw [takeWhile_ne_zero h]

theorem comesBack_string (floats : FloatParser) {s : Text} (h : (0 : UInt8) ∉ s) :
    ComesBack floats (.string s) :=
  ⟨.text s, receive_textEntry h OidTypeRegistry.text, rfl⟩

theorem not_mem_decimal {n : ℕ} {c : UInt8} (h : isDigit c = false) : c ∉ decimal n := by
  intro hmem
  rw [isDigit_of_mem_decimal hmem] at h
  cases h

theorem numericIn_decimal (n : ℕ) : numericIn (decimal n) = some (.finite false n []) := by
  have hdigits : ∀ c ∈ decimal n, isDigit c = true := fun c => isDigit_of_mem_decimal
  have hne := decimal_ne_nil n
  have hnan : decimal n ≠ ascii "NaN" := by
    intro h
    have hmem : (78 : UInt8) ∈ decimal n := by rw [h]; decide
    exact not_mem_decimal (by decide) hmem
  have hinfinity : decimal n ≠ ascii "Infinity" := by
    intro h
    have hmem : (73 : UInt8) ∈ decimal n := by rw [h]; decide
    exact not_mem_decimal (by decide) hmem
  have hhead : ((decimal n).head? == some hyphen) = false := by
    rw [← List.append_nil (decimal n)]
    exact head_ne_hyphen hdigits hne
  have htake : (decimal n).takeWhile isDigit = decimal n := List.takeWhile_eq_self_iff.mpr hdigits
  have hdrop : (decimal n).dropWhile isDigit = [] := List.dropWhile_eq_nil_iff.mpr hdigits
  simp only [numericIn, if_neg hnan, hhead, Bool.false_eq_true, if_false, if_neg hinfinity, hdrop,
    htake, if_neg hne, number_decimal]

/-- The number of groups is below 256, so that its first byte is zero. -/
theorem numericSend_cons (n : UInt64) :
    ∃ rest, numericSend (.finite false n.toNat []) = 0 :: rest := by
  have hdigits : (Nat.digits 10000 n.toNat).length ≤ 5 := by
    rw [Nat.digits_length_le_iff (by norm_num)]
    exact n.toNat_lt.trans (by norm_num)
  have hkept : ∀ groups : List ℕ,
      ((groups.dropWhile (· == 0)).rdropWhile (· == 0)).length ≤ groups.length := fun groups =>
    (List.rdropWhile_prefix _ _).length_le.trans (List.dropWhile_sublist _).length_le
  have hcount := hkept ((Nat.digits 10000 n.toNat).reverse ++ fractionGroups [])
  have hsmall : ∀ k, k ≤ 5 → UInt8.ofNat (k / 256 ^ 1) = 0 := by
    intro k hk
    rw [Nat.div_eq_of_lt (by omega)]
    rfl
  rw [List.length_append, List.length_reverse] at hcount
  unfold numericSend numericHeader
  dsimp only
  rw [bigEndian_succ, hsmall _ (hcount.trans hdigits)]
  exact ⟨_, rfl⟩

theorem not_comesBack_uint64 (floats : FloatParser) (n : UInt64) :
    ¬ ComesBack floats (.uint64 n) := by
  rintro ⟨w, hw, has⟩
  have hzero : (0 : UInt8) ∉ decimal n.toNat := not_mem_decimal (by decide)
  change receive (Params.textEntry (decimal n.toNat) OidTypeRegistry.numeric) = some w at hw
  rw [receive_textEntry hzero] at hw
  have hw' : w = .numeric (.finite false n.toNat []) := by
    simpa [receiveText, numericIn_decimal] using hw.symm
  subst hw'
  obtain ⟨rest, hsend⟩ := numericSend_cons n
  have hfail : fromChars uint64T (0 :: rest) = none := by
    rw [Option.eq_none_iff_forall_ne_some]
    intro m hm
    obtain ⟨-, c, cs, hcons, hlow, -⟩ := fromChars_bounds hm
    obtain rfl := (List.cons.inj hcons).1
    exact absurd hlow (by decide)
  change (FieldView.as floats ⟨numericSend _, false, _, _⟩ Target.uint64.fieldType) = _ at has
  rw [FieldView.as_integer floats rfl, hsend] at has
  change (FieldView.decodeIntegerText ⟨0 :: rest, false, _, _⟩ uint64T).map _ = _ at has
  rw [FieldView.decodeIntegerText, hfail] at has
  cases has

/-! ### Bytes -/

theorem comesBack_bytes_iff (floats : FloatParser) {bytes : List UInt8} (hne : bytes ≠ []) :
    ComesBack floats (.bytes bytes) ↔ bytes.length < 2 ^ 31 := by
  constructor
  · rintro ⟨w, hw, has⟩
    change receive (Params.binaryEntry bytes OidTypeRegistry.bytea) = some w at hw
    simp only [receive, Params.binaryEntry, if_neg hne] at hw
    rw [if_neg (by decide)] at hw
    split_ifs at hw with hneg
    obtain rfl := Option.some.inj hw
    -- what is read has the length that was sent
    have hread : FieldValue.bytes (bytes.take (Int32.ofNat bytes.length).toInt.toNat) =
        .bytes bytes := Except.ok.inj has
    have hle := List.take_eq_self_iff _ |>.mp (FieldValue.bytes.inj hread)
    have hlt := (Int32.ofNat bytes.length).toInt_lt
    omega
  · intro hlength
    exact ⟨.bytea bytes, receive_binaryEntry hne hlength OidTypeRegistry.bytea, rfl⟩

/-- All but numbers of the type `uint64_t`, and vectors of which an `int` does not hold the
length. -/
theorem comesBack_iff (floats : FloatParser) (v : FieldValue) (h : Sendable v) :
    ComesBack floats v ↔
      (∀ n, v ≠ .uint64 n) ∧ ∀ bytes, v = .bytes bytes → bytes.length < 2 ^ 31 := by
  cases v with
  | bool b =>
    refine iff_of_true ⟨.bool b, ?_, ?_⟩ ⟨by simp, by simp⟩
    · cases b <;> rfl
    · cases b <;> rfl
  | char c => exact iff_of_true ⟨.char c, rfl, rfl⟩ ⟨by simp, by simp⟩
  | int16 n => exact iff_of_true (comesBack_integer floats rfl nofun) ⟨by simp, by simp⟩
  | int32 n => exact iff_of_true (comesBack_integer floats rfl nofun) ⟨by simp, by simp⟩
  | int64 n => exact iff_of_true (comesBack_integer floats rfl nofun) ⟨by simp, by simp⟩
  | uint16 n => exact iff_of_true (comesBack_integer floats rfl nofun) ⟨by simp, by simp⟩
  | uint32 n => exact iff_of_true (comesBack_integer floats rfl nofun) ⟨by simp, by simp⟩
  | uint64 n => exact iff_of_false (not_comesBack_uint64 floats n) fun hcond => hcond.1 n rfl
  | string s => exact iff_of_true (comesBack_string floats h) ⟨by simp, by simp⟩
  | bytes bytes =>
    rw [comesBack_bytes_iff floats h]
    simp
  | monostate => exact h.elim
  | float bits => exact h.elim
  | double bits => exact h.elim
  | stringView s => exact h.elim
  | byteSpan bytes => exact h.elim

/-- Three bytes come back. -/
theorem comesBack_threeBytes :
    Sendable (.bytes [0, 1, 255]) ∧ ComesBack default (.bytes [0, 1, 255]) :=
  ⟨List.cons_ne_nil _ _,
    (comesBack_iff default (.bytes [0, 1, 255]) (List.cons_ne_nil _ _)).mpr ⟨by simp, by simp⟩⟩

/-- The `uint64_t` one is sent as the text of a `numeric`, and its binary form begins with
the number of its groups. -/
theorem not_comesBack_one :
    Sendable (.uint64 1) ∧ ¬ ComesBack default (.uint64 1) :=
  ⟨trivial, not_comesBack_uint64 default 1⟩

end Demiplane.Postgres

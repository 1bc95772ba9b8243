import Demiplane.Gears.ToString
import Demiplane.Sql.Lexer

/-!
`PostgresDialect`: how identifiers, values and numbers of placeholders are written
into a query, and what PostgreSQL's lexer makes of them.
-/

namespace Demiplane.Query

open Text Sql Sql.Lexer Gears

/-! ### Values -/

/-- The alternatives of `FieldValue`. A floating-point number is given by its bits. -/
inductive FieldValue where
  | monostate
  | bool (val : Bool)
  | char (val : UInt8)
  | int16 (val : Int16)
  | int32 (val : Int32)
  | int64 (val : Int64)
  | uint16 (val : UInt16)
  | uint32 (val : UInt32)
  | uint64 (val : UInt64)
  | float (bits : UInt32)
  | double (bits : UInt64)
  | string (val : Text)
  | stringView (val : Text)
  | bytes (val : List UInt8)
  | byteSpan (val : List UInt8)
  deriving DecidableEq, Repr

/-! ### Floating-point numbers -/

/-- The words that stand for the values that have no numeral. -/
inductive NonFinite where
  | inf
  | nan
  | infinity
  | notANumber
  deriving DecidableEq, Repr

def NonFinite.text : NonFinite → Text
  | .inf => ascii "inf"
  | .nan => ascii "nan"
  | .infinity => ascii "Infinity"
  | .notANumber => ascii "NaN"

/-- The sign of an exponent is always written; `true` is a minus. -/
inductive Magnitude where
  | numeral (first : Fin 10) (whole : List (Fin 10)) (fraction : Option (List (Fin 10)))
      (exponent : Option (Bool × List (Fin 10)))
  | nonFinite (word : NonFinite)
  deriving DecidableEq, Repr, Inhabited

def digitsText (ds : List (Fin 10)) : Text := ds.map fun (d : Fin 10) => digit d

def Magnitude.text : Magnitude → Text
  | .numeral first whole fraction exponent =>
      digitsText (first :: whole) ++
      (fraction.elim [] fun ds => point :: digitsText ds) ++
      (exponent.elim [] fun e =>
        ascii "e" ++ (if e.1 then ascii "-" else ascii "+") ++ digitsText e.2)
  | .nonFinite word => word.text

structure FloatText where
  negative : Bool
  magnitude : Magnitude
  deriving DecidableEq, Repr, Inhabited

def FloatText.text (t : FloatText) : Text :=
  (if t.negative then [minus] else []) ++ t.magnitude.text

/-- `std::to_chars`, or `constexpr_to_string` where the query is compiled at compile
time: which of the texts of a floating-point number is written for which bits. -/
structure FloatFormat where
  float : UInt32 → FloatText
  double : UInt64 → FloatText
  deriving Inhabited

/-! ### Texts of the dialect -/

def escapeChar (c : UInt8) : Text :=
  if c = apostrophe then [apostrophe, apostrophe]
  else if c = backslash then [backslash, backslash]
  else [c]

def escapeString (str : Text) : Text := str.flatMap escapeChar

def escapeIdentifier (name : Text) : Text :=
  name.flatMap fun c => if c = doubleQuote then [doubleQuote, doubleQuote] else [c]

def quoteIdentifier (name : Text) : Text := [doubleQuote] ++ escapeIdentifier name ++ [doubleQuote]

def placeholder (index : ℕ) : Text := [dollarSign] ++ constexprToString index

def hexChar (nibble : UInt8) : UInt8 := (ascii "0123456789abcdef").getD nibble.toNat 0

def formatBinaryData (data : List UInt8) : Text :=
  ascii "'\\x" ++
    (data.flatMap fun (byte : UInt8) => [hexChar (byte >>> 4), hexChar (byte &&& 0x0F)]) ++
    ascii "'"

def formatNull : Text := ascii "NULL"

def formatBool (val : Bool) : Text := if val then ascii "TRUE" else ascii "FALSE"

def formatChar (val : UInt8) : Text := ascii "'" ++ escapeChar val ++ ascii "'"

/-- `std::to_chars` for an integer. -/
def formatIntegral (val : ℤ) : Text :=
  (if val < 0 then [minus] else []) ++ decimal val.natAbs

def formatStringValue (val : Text) : Text := ascii "'" ++ escapeString val ++ ascii "'"

section

variable (floats : FloatFormat)

def formatValue : FieldValue → Text
  | .monostate => formatNull
  | .bool val => formatBool val
  | .char val => formatChar val
  | .float bits => (floats.float bits).text
  | .double bits => (floats.double bits).text
  | .int16 val => formatIntegral val.toInt
  | .int32 val => formatIntegral val.toInt
  | .int64 val => formatIntegral val.toInt
  | .uint16 val => formatIntegral val.toNat
  | .uint32 val => formatIntegral val.toNat
  | .uint64 val => formatIntegral val.toNat
  | .string val => formatStringValue val
  | .stringView val => formatStringValue val
  | .bytes val => formatBinaryData val
  | .byteSpan val => formatBinaryData val

end

/-! ### Quoted texts -/

/-- The backslashes of the text are doubled as well as its apostrophes. -/
theorem escapeString_eq (str : Text) :
    escapeString str = doubled apostrophe (doubled backslash str) := by
  induction str with
  | nil => rfl
  | cons c str ih =>
    have hescape : escapeChar c =
        doubled apostrophe (if c = backslash then [backslash, backslash] else [c]) := by
      unfold escapeChar
      split_ifs with hquote hback
      · exact absurd (hquote.symm.trans hback) (by decide)
      · simp [hquote, doubled_cons]
      · decide
      · simp [hquote, doubled_cons]
    rw [doubled_cons, doubled_append, ← hescape, ← ih]
    rfl

theorem run_quoteIdentifier (name : Text) :
    run ⟨.start, []⟩ (quoteIdentifier name) = ⟨.quotedEnd false name, []⟩ :=
  run_delimited name

theorem run_formatStringValue (val : Text) :
    run ⟨.start, []⟩ (formatStringValue val) = ⟨.stringEnd .plain (doubled backslash val), []⟩ := by
  unfold formatStringValue
  rw [escapeString_eq]
  exact run_literal _

theorem formatChar_eq (val : UInt8) : formatChar val = formatStringValue [val] := by
  simp [formatChar, formatStringValue, escapeString]

/-- The characters of a value that is written as a plain string constant. -/
def FieldValue.characters : FieldValue → Option Text
  | .char val => some [val]
  | .string val => some val
  | .stringView val => some val
  | _ => none

theorem run_formatValue_characters (floats : FloatFormat) {value : FieldValue} {str : Text}
    (h : value.characters = some str) :
    run ⟨.start, []⟩ (formatValue floats value) =
      ⟨.stringEnd .plain (doubled backslash str), []⟩ := by
  cases value with
  | char val =>
    obtain rfl := Option.some.inj h
    rw [formatValue, formatChar_eq, run_formatStringValue]
  | string val =>
    obtain rfl := Option.some.inj h
    exact run_formatStringValue val
  | stringView val =>
    obtain rfl := Option.some.inj h
    exact run_formatStringValue val
  | _ => cases h

/-- PostgreSQL reads the value back exactly if there is no backslash in it. -/
theorem literal_preserved_iff (floats : FloatFormat) (value : FieldValue) (str : Text)
    (h : value.characters = some str) :
    lex (formatValue floats value) = [.string .plain str] ↔ backslash ∉ str := by
  have hscan : scan (formatValue floats value) = [.string .plain (doubled backslash str)] := by
    rw [scan, run_formatValue_characters floats h]
    rfl
  rw [lex_eq_scan (by simp [hscan]), hscan]
  simpa using doubled_eq_self_iff

theorem literal_preserved_apostrophe :
    lex (formatValue default (.string (ascii "it's"))) = [.string .plain (ascii "it's")] :=
  (literal_preserved_iff default (.string (ascii "it's")) (ascii "it's") rfl).mpr (by decide)

theorem backslash_read_twice :
    lex (formatValue default (.char backslash)) ≠ [.string .plain [backslash]] ∧
      lex (formatValue default (.char backslash)) = [.string .plain [backslash, backslash]] := by
  decide

/-! ### Numerals -/

theorem first_digit {c : UInt8} (h : isDigit c = true) :
    first c = (.number [c], []) ∧ isOperator c = false ∧ isExponent c = false ∧ c ≠ point := by
  revert h
  refine forall_byte ?_ c
  decide +kernel

theorem run_digits {t : Text} (h : ∀ c ∈ t, isDigit c = true) (hne : t ≠ []) :
    run ⟨.start, []⟩ t = ⟨.number t, []⟩ := by
  obtain ⟨c, t, rfl⟩ := List.exists_cons_of_ne_nil hne
  have hstep : step ⟨.start, []⟩ c = ⟨.number [c], []⟩ := by
    simp [step, (first_digit (h c List.mem_cons_self)).1]
  rw [run_cons, hstep, run_number_digits _ fun d hd => h d (List.mem_cons_of_mem _ hd)]
  rfl

theorem isDigit_of_mem_digitsText {ds : List (Fin 10)} {c : UInt8} (h : c ∈ digitsText ds) :
    isDigit c = true := by
  obtain ⟨d, -, rfl⟩ := List.mem_map.mp h
  exact isDigit_digit d.isLt

theorem any_digitsText (ds : List (Fin 10)) :
    (digitsText ds).any isExponent = false ∧
      (digitsText ds).any (fun d => d == point || isExponent d) = false := by
  simp only [List.any_eq_false]
  constructor
  · intro c hc
    simp [first_digit (isDigit_of_mem_digitsText hc)]
  · intro c hc
    simp [first_digit (isDigit_of_mem_digitsText hc)]

theorem run_fraction {acc : Text} (h : acc.any (fun d => d == point || isExponent d) = false)
    (ds : List (Fin 10)) :
    run ⟨.number acc, []⟩ (point :: digitsText ds) =
      ⟨.number (acc ++ point :: digitsText ds), []⟩ := by
  have hstep : step ⟨.number acc, []⟩ point = ⟨.number (acc ++ [point]), []⟩ := by
    simp [step, next, show isDigit point = false from rfl, h]
  rw [run_cons, hstep, run_number_digits _ fun c hc => isDigit_of_mem_digitsText hc]
  simp

theorem step_sign {acc : Text} (hlast : acc.getLast?.any isExponent = true) {c : UInt8}
    (hc : isSign c = true) : step ⟨.number acc, []⟩ c = ⟨.number (acc ++ [c]), []⟩ := by
  have hall : ∀ d ∈ ascii "+-", isDigit d = false ∧ isExponent d = false ∧ d ≠ point := by
    decide +kernel
  obtain ⟨hdigit, hexponent, hpoint⟩ := hall c (by simpa [isSign] using hc)
  simp [step, next, hdigit, hexponent, hpoint, hc, hlast]

theorem run_exponent {acc : Text} (h : acc.any isExponent = false) (negative : Bool)
    (ds : List (Fin 10)) :
    ∃ acc', run ⟨.number acc, []⟩
      (ascii "e" ++ (if negative then ascii "-" else ascii "+") ++ digitsText ds) =
        ⟨.number acc', []⟩ := by
  have he : run ⟨.number acc, []⟩ (ascii "e") = ⟨.number (acc ++ [101]), []⟩ := by
    change step ⟨.number acc, []⟩ 101 = ⟨.number (acc ++ [101]), []⟩
    simp [step, next, show isDigit 101 = false from rfl, show (101 : UInt8) ≠ point by decide,
      show isExponent 101 = true by decide, h]
  have hlast : (acc ++ [101]).getLast?.any isExponent = true := by
    rw [List.getLast?_concat]
    decide
  have hsign : ∃ c, isSign c = true ∧ (if negative then ascii "-" else ascii "+") = [c] := by
    cases negative with
    | true => exact ⟨45, by decide, rfl⟩
    | false => exact ⟨43, by decide, rfl⟩
  obtain ⟨c, hc, htext⟩ := hsign
  rw [htext, run_append, run_append, he, run_cons, run_nil, step_sign hlast hc,
    run_number_digits _ fun c hc => isDigit_of_mem_digitsText hc]
  exact ⟨_, rfl⟩

/-! ### Constants -/

/-- The words that are written for a value. -/
def constantWords : List Text :=
  [ascii "NULL", ascii "TRUE", ascii "FALSE", ascii "inf", ascii "nan", ascii "Infinity",
    ascii "NaN"]

/-- Modes whose token is a constant. -/
def ofConstant : Mode → Bool
  | .word acc => constantWords.contains acc
  | .number _ => true
  | .stringEnd .plain _ => true
  | _ => false

/-- The text is one constant. -/
def IsConstant (t : Text) : Prop :=
  ∃ mode : Mode, ofConstant mode = true ∧ run ⟨.start, []⟩ t = ⟨mode, []⟩

/-- A floating-point number without its sign is one token, a number or a word. -/
theorem Magnitude.isConstant (m : Magnitude) : IsConstant m.text := by
  cases m with
  | nonFinite word => exact ⟨.word word.text, by cases word <;> decide, by cases word <;> decide⟩
  | numeral first whole fraction exponent =>
    have hwhole : run ⟨.start, []⟩ (digitsText (first :: whole)) =
        ⟨.number (digitsText (first :: whole)), []⟩ :=
      run_digits (fun c hc => isDigit_of_mem_digitsText hc) (List.cons_ne_nil _ _)
    -- the three parts are read one after the other, all into one number
    have hfraction : ∃ acc : Text, acc.any isExponent = false ∧
        run ⟨.number (digitsText (first :: whole)), []⟩
          (fraction.elim [] fun ds => point :: digitsText ds) = ⟨.number acc, []⟩ := by
      cases fraction with
      | none => exact ⟨_, (any_digitsText _).1, rfl⟩
      | some ds =>
        refine ⟨_, ?_, run_fraction (any_digitsText _).2 ds⟩
        simp [any_digitsText, show isExponent point = false by decide]
    obtain ⟨acc, hacc, hrun⟩ := hfraction
    rw [IsConstant, Magnitude.text, run_append, run_append, hwhole, hrun]
    cases exponent with
    | none => exact ⟨.number acc, rfl, rfl⟩
    | some e =>
      obtain ⟨acc', hexponent⟩ := run_exponent hacc e.1 e.2
      exact ⟨.number acc', rfl, hexponent⟩

theorem Magnitude.first_ne_operator (m : Magnitude) :
    ∃ c t, m.text = c :: t ∧ isOperator c = false := by
  cases m with
  | nonFinite word => cases word <;> exact ⟨_, _, rfl, by decide⟩
  | numeral first whole fraction exponent =>
    exact ⟨digit first, _, rfl, (first_digit (isDigit_digit first.isLt)).2.1⟩

theorem isConstant_decimal (n : ℕ) : IsConstant (decimal n) :=
  ⟨.number (decimal n), rfl, run_digits (fun _ hc => isDigit_of_mem_decimal hc) (decimal_ne_nil n)⟩

theorem decimal_first_ne_operator (n : ℕ) : ∃ c t, decimal n = c :: t ∧ isOperator c = false := by
  obtain ⟨c, t, h⟩ := List.exists_cons_of_ne_nil (decimal_ne_nil n)
  exact ⟨c, t, h, (first_digit (isDigit_of_mem_decimal (h ▸ List.mem_cons_self))).2.1⟩

/-- The text is a constant, with a minus in front of it or without one. -/
def IsSigned (t : Text) : Prop :=
  ∃ mode : Mode, ofConstant mode = true ∧
    (run ⟨.start, []⟩ t = ⟨mode, []⟩ ∨ run ⟨.start, []⟩ t = ⟨mode, [.operator [minus]]⟩)

theorem IsConstant.signed {t : Text} (h : IsConstant t) : IsSigned t := by
  obtain ⟨mode, hmode, hrun⟩ := h
  exact ⟨mode, hmode, .inl hrun⟩

theorem IsConstant.minus {t : Text} (h : IsConstant t)
    (hfirst : ∃ c u, t = c :: u ∧ isOperator c = false) (negative : Prop) [Decidable negative] :
    IsSigned ((if negative then [minus] else []) ++ t) := by
  split_ifs
  · obtain ⟨mode, hmode, hrun⟩ := h
    refine ⟨mode, hmode, .inr ?_⟩
    obtain ⟨c, u, rfl, hc⟩ := hfirst
    have hne : c ≠ Lexer.minus ∧ c ≠ star := by
      constructor <;> (rintro rfl; exact absurd hc (by decide))
    have hbreaks : Breaks (.operator [Lexer.minus]) (c :: u) := by
      intro d hd
      obtain rfl := Option.some.inj hd
      simp [next, afterOperator, hc, hne]
    have hminus : run ⟨.start, []⟩ [Lexer.minus] = ⟨.operator [Lexer.minus], []⟩ := by decide
    rw [run_append, hminus, run_of_breaks hbreaks, run_out, hrun]
    rfl
  · exact h.signed

theorem isSigned_formatIntegral (val : ℤ) : IsSigned (formatIntegral val) :=
  (isConstant_decimal _).minus (decimal_first_ne_operator _) _

theorem FloatText.isSigned (t : FloatText) : IsSigned t.text :=
  t.magnitude.isConstant.minus t.magnitude.first_ne_operator _

theorem hexChar_ne_apostrophe (nibble : UInt8) : hexChar nibble ≠ apostrophe := by
  refine forall_byte ?_ nibble
  decide +kernel

/-- The hexadecimal digits of a byte string are the value of a plain string constant,
behind a backslash that stands for itself. -/
theorem run_formatBinaryData (data : List UInt8) :
    ∃ str, run ⟨.start, []⟩ (formatBinaryData data) = ⟨.stringEnd .plain str, []⟩ := by
  generalize hhex : (data.flatMap fun (byte : UInt8) =>
    [hexChar (byte >>> 4), hexChar (byte &&& 0x0F)]) = hex
  have hmem : apostrophe ∉ [backslash, 120] ++ hex := by
    subst hhex
    simp only [List.mem_append, not_or]
    exact ⟨by decide, by simp [Ne.symm (hexChar_ne_apostrophe _)]⟩
  have htext : formatBinaryData data =
      apostrophe :: doubled apostrophe ([backslash, 120] ++ hex) ++ [apostrophe] := by
    rw [doubled_eq_self_iff.mpr hmem, formatBinaryData, hhex]
    rfl
  rw [htext]
  exact ⟨_, run_literal _⟩

theorem isConstant_formatBinaryData (data : List UInt8) : IsConstant (formatBinaryData data) := by
  obtain ⟨str, hrun⟩ := run_formatBinaryData data
  exact ⟨_, rfl, hrun⟩

theorem isSigned_formatValue (floats : FloatFormat) (value : FieldValue) :
    IsSigned (formatValue floats value) := by
  cases value with
  | monostate => exact IsConstant.signed ⟨.word (ascii "NULL"), by decide, rfl⟩
  | bool val =>
    cases val with
    | true => exact IsConstant.signed ⟨.word (ascii "TRUE"), by decide, rfl⟩
    | false => exact IsConstant.signed ⟨.word (ascii "FALSE"), by decide, rfl⟩
  | char val => exact IsConstant.signed ⟨_, rfl, run_formatValue_characters floats rfl⟩
  | string val => exact IsConstant.signed ⟨_, rfl, run_formatValue_characters floats rfl⟩
  | stringView val => exact IsConstant.signed ⟨_, rfl, run_formatValue_characters floats rfl⟩
  | bytes val => exact (isConstant_formatBinaryData val).signed
  | byteSpan val => exact (isConstant_formatBinaryData val).signed
  | float bits => exact (floats.float bits).isSigned
  | double bits => exact (floats.double bits).isSigned
  | int16 val => exact isSigned_formatIntegral _
  | int32 val => exact isSigned_formatIntegral _
  | int64 val => exact isSigned_formatIntegral _
  | uint16 val => exact isSigned_formatIntegral _
  | uint32 val => exact isSigned_formatIntegral _
  | uint64 val => exact isSigned_formatIntegral _

/-- A placeholder is one token, whose number is that of the placeholder. -/
theorem run_placeholder (index : ℕ) :
    run ⟨.start, []⟩ (placeholder index) = ⟨.param (decimal index), []⟩ := by
  rw [placeholder, constexprToString_eq]
  obtain ⟨c, t, h⟩ := List.exists_cons_of_ne_nil (decimal_ne_nil index)
  have hdigits : ∀ d ∈ c :: t, isDigit d = true := fun d hd =>
    isDigit_of_mem_decimal (h ▸ hd)
  have hfirst : step ⟨.start, []⟩ dollarSign = ⟨.dollar, []⟩ := by decide
  have hsecond : step ⟨.dollar, []⟩ c = ⟨.param [c], []⟩ := by
    simp [step, next, hdigits c List.mem_cons_self]
  rw [h, List.singleton_append, run_cons, hfirst, run_cons, hsecond,
    run_param_digits _ fun d hd => hdigits d (List.mem_cons_of_mem _ hd)]
  rfl

end Demiplane.Query

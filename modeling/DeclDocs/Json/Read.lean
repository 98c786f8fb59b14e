import DeclDocs.Json.Basic
import DeclDocs.Text.Double

/-!
# Reading JSON

A strict reader: no comments, no trailing commas, no raw control characters in strings, surrogates
only in pairs.  Arrays and objects nest at most 127 deep.  Integers outside the 64-bit range and
minus zero are read as other numbers, and a number too large for double precision is refused.  Of
fields with one name the last counts.

* `Json.read?`: the value that a text is.
-/

namespace DeclDocs

namespace Json

/-! ## §1 Blanks and strings -/

/-- A blank between the parts of a JSON text. -/
def isJsonBlank (c : Char) : Bool :=
  c == ' ' || c == '\n' || c == '\t' || c == '\r'

def skipBlanks (text : Text) : Text :=
  text.dropWhile isJsonBlank

/-- The character of a single escape letter. -/
def escape? (c : Char) : Option Char :=
  if c = '"' ∨ c = '\\' ∨ c = '/' then some c
  else if c = 'b' then some '\x08'
  else if c = 'f' then some '\x0c'
  else if c = 'n' then some '\n'
  else if c = 'r' then some '\r'
  else if c = 't' then some '\t'
  else none

/-- The rest of a string whose opening quote has been read, and what follows its closing quote. -/
def readString? : Text → Option (Text × Text)
  | [] => none
  | '"' :: rest => some ([], rest)
  | '\\' :: 'u' :: a :: b :: c :: d :: rest =>
    match hexNumber? [a, b, c, d] with
    | none => none
    | some unit =>
      if unit < 0xd800 ∨ 0xdfff < unit then
        (readString? rest).map fun (value, rest) => (Char.ofNat unit :: value, rest)
      else if 0xdc00 ≤ unit then none
      else
        match rest with
        | '\\' :: 'u' :: e :: f :: g :: h :: rest =>
          match hexNumber? [e, f, g, h] with
          | none => none
          | some low =>
            if 0xdc00 ≤ low ∧ low ≤ 0xdfff then
              let c := Char.ofNat (0x10000 + (unit - 0xd800) * 0x400 + (low - 0xdc00))
              (readString? rest).map fun (value, rest) => (c :: value, rest)
            else none
        | _ => none
  | '\\' :: c :: rest =>
    match escape? c with
    | some c => (readString? rest).map fun (value, rest) => (c :: value, rest)
    | none => none
  | c :: rest =>
    if c = '\\' ∨ c.toNat < 32 then none
    else (readString? rest).map fun (value, rest) => (c :: value, rest)

/-! ## §2 Numbers -/

/-- A fraction behind a whole number: its digits, or none when no point follows. -/
def readFraction? (text : Text) : Option (Text × Text) :=
  match text with
  | '.' :: rest =>
    let digits := rest.takeWhile Char.isDigit
    if digits.isEmpty then none else some (digits, rest.dropWhile Char.isDigit)
  | _ => some ([], text)

/-- An exponent behind a number, or none when no letter follows. -/
def readExponent? (text : Text) : Option (Option Int × Text) :=
  match text with
  | [] => some (none, [])
  | c :: rest =>
    if c = 'e' ∨ c = 'E' then
      let (negative, rest) := readSign rest
      let digits := rest.takeWhile Char.isDigit
      if digits.isEmpty then none
      else
        let value : Int := digitsValue digits
        some (some (if negative then -value else value), rest.dropWhile Char.isDigit)
    else some (none, text)

/-- Appends digits to a significand as long as it fits 64 bits; the significand and how many digits
are left. -/
def takeDigits (significand : Nat) : Text → Nat × Nat
  | [] => (significand, 0)
  | c :: rest =>
    let next := 10 * significand + (c.toNat - '0'.toNat)
    if next < UInt64.size then takeDigits next rest else (significand, rest.length + 1)

/-- A number is too large for double precision.  Its significand has the digits that fit 64 bits;
each digit left in front of the point is one more power of ten and those left behind it do not
count.  The double nearest to the significand times the double nearest to the power of ten must not
be beyond the largest double. -/
def isTooLarge (whole fraction : Text) (exponent : Int) : Bool :=
  let (significand, wholeLeft) := takeDigits 0 whole
  let (significand, fractionLeft) := takeDigits significand fraction
  let power := exponent + wholeLeft - (fraction.length - fractionLeft : Nat)
  if significand = 0 ∨ power < 0 then false
  else if 308 < power then true
  else doubleLimit ≤ nearestDouble significand * nearestDouble (Nat.pow 10 power.toNat)

/-- A whole number without fraction and exponent; beyond 64 bits it is some other number. -/
def wholeNumber (negative : Bool) (digits : Text) : Json :=
  let value := digitsValue digits
  if negative then
    if 0 < value ∧ value ≤ signBit then int (-value) else real ('-' :: digits)
  else if value < UInt64.size then int value
  else real digits

/-- A number whose sign has been read. -/
def readNumber? (negative : Bool) (text : Text) : Option (Json × Text) := do
  let digits := text.takeWhile Char.isDigit
  if digits.isEmpty || (digits.head? == some '0' && 1 < digits.length) then none
  else
    let rest := text.dropWhile Char.isDigit
    let (fraction, afterFraction) ← readFraction? rest
    let (exponent, after) ← readExponent? afterFraction
    if isTooLarge digits fraction (exponent.getD 0) then none
    else if fraction.isEmpty && exponent.isNone then some (wholeNumber negative digits, after)
    else
      let written := text.take (text.length - after.length)
      some (real (if negative then '-' :: written else written), after)

/-! ## §3 Arrays and objects -/

/-- The fields with one more behind them, which replaces an earlier one of that name. -/
def putField (fields : List (Text × Json)) (name : Text) (value : Json) : List (Text × Json) :=
  if fields.any fun field => field.1 == name then
    fields.map fun field => if field.1 = name then (name, value) else field
  else fields ++ [(name, value)]

/-- The items of an array from the first one on, and what follows the closing bracket. -/
def readItems? (value? : Text → Option (Json × Text)) : (fuel : Nat) → Text →
    Option (List Json × Text)
  | 0, _ => none
  | fuel + 1, text =>
    match value? text with
    | none => none
    | some (item, rest) =>
      match skipBlanks rest with
      | ']' :: rest => some ([item], rest)
      | ',' :: rest => (readItems? value? fuel rest).map fun (items, rest) => (item :: items, rest)
      | _ => none

/-- The fields of an object from the next one on, added to `fields`, and what follows the closing
brace. -/
def readFields? (value? : Text → Option (Json × Text)) : (fuel : Nat) →
    (fields : List (Text × Json)) → Text → Option (List (Text × Json) × Text)
  | 0, _, _ => none
  | fuel + 1, fields, text =>
    match skipBlanks text with
    | '"' :: rest =>
      match readString? rest with
      | none => none
      | some (name, rest) =>
        match skipBlanks rest with
        | ':' :: rest =>
          match value? rest with
          | none => none
          | some (value, rest) =>
            let fields := putField fields name value
            match skipBlanks rest with
            | '}' :: rest => some (fields, rest)
            | ',' :: rest => readFields? value? fuel fields rest
            | _ => none
        | _ => none
    | _ => none

/-- A value other than an array or object, blanks in front of it removed. -/
def readScalar? (text : Text) : Option (Json × Text) :=
  match text with
  | '"' :: rest => (readString? rest).map fun (value, rest) => (str value, rest)
  | '-' :: rest => readNumber? true rest
  | _ =>
    if let some rest := text.after? "null" then some (null, rest)
    else if let some rest := text.after? "true" then some (bool true, rest)
    else if let some rest := text.after? "false" then some (bool false, rest)
    else readNumber? false text

/-- The value at the beginning of the text, in which arrays and objects nest at most `depth` deep,
and what follows it. -/
def readValue? : (depth : Nat) → Text → Option (Json × Text)
  | 0, text =>
    match skipBlanks text with
    | '[' :: _ | '{' :: _ => none
    | text => readScalar? text
  | depth + 1, text =>
    match skipBlanks text with
    | '[' :: rest =>
      match skipBlanks rest with
      | ']' :: rest => some (arr [], rest)
      | rest =>
        (readItems? (readValue? depth) rest.length rest).map fun (items, rest) => (arr items, rest)
    | '{' :: rest =>
      match skipBlanks rest with
      | '}' :: rest => some (obj [], rest)
      | rest =>
        (readFields? (readValue? depth) rest.length [] rest).map fun (fields, rest) =>
          (obj fields, rest)
    | text => readScalar? text

/-- How deep arrays and objects may nest. -/
def nestingLimit : Nat := 127

/-- The value that the text is, blanks around it aside. -/
def read? (text : Text) : Option Json :=
  match readValue? nestingLimit text with
  | some (value, rest) => if (skipBlanks rest).isEmpty then some value else none
  | none => none

end Json

end DeclDocs

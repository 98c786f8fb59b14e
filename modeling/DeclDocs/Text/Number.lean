import DeclDocs.Text.Basic

/-!
# Numbers in text

Decimal and hexadecimal digits.
-/

namespace DeclDocs

/-- A number in decimal digits. -/
def decimal (n : Nat) : Text := Nat.toDigits 10 n

/-- The number that decimal digits stand for. -/
def digitsValue (digits : Text) : Nat :=
  digits.foldl (fun n c => 10 * n + (c.toNat - '0'.toNat)) 0

/-- The value of a hexadecimal digit. -/
def hexValue? (c : Char) : Option Nat :=
  if '0' ≤ c ∧ c ≤ '9' then some (c.toNat - '0'.toNat)
  else if 'a' ≤ c ∧ c ≤ 'f' then some (c.toNat - 'a'.toNat + 10)
  else if 'A' ≤ c ∧ c ≤ 'F' then some (c.toNat - 'A'.toNat + 10)
  else none

/-- The number that digits of a base of at most sixteen stand for. -/
def baseValue? (base : Nat) (digits : Text) : Option Nat :=
  digits.foldlM
    (fun n c => (hexValue? c).bind fun d => if d < base then some (base * n + d) else none) 0

/-- The number that hexadecimal digits stand for. -/
def hexNumber? (digits : Text) : Option Nat := baseValue? 16 digits

/-- The value of the highest bit of 64: the numbers of 64 bits with a sign lie from minus this
number up to below it. -/
def signBit : Nat := 0x8000000000000000

/-- A sign in front of a number (true for minus) and the text behind it. -/
def readSign (text : Text) : Bool × Text :=
  match text with
  | '+' :: rest => (false, rest)
  | '-' :: rest => (true, rest)
  | _ => (false, text)

/-- The whole number that a text of decimal digits with an optional sign is. -/
def signedNumber? (text : Text) : Option Int :=
  let (negative, digits) := readSign text
  if digits.isEmpty || !digits.all Char.isDigit then none
  else
    let value : Int := digitsValue digits
    some (if negative then -value else value)

end DeclDocs

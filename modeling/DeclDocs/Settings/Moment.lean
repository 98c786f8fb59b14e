import DeclDocs.Text.Number

/-!
# Dates and times in settings

A moment is a date such as `1979-05-27`, a time of day such as `07:32:00.5`, or both with a `T` or
a space between them and perhaps the distance from universal time behind them.  No setting is a
moment, so its parts are only checked: every reader here gives the text behind what it reads.

* `Moment.after?`: what follows the moment at the beginning of a text.
-/

namespace DeclDocs

namespace Moment

/-- The number that exactly `count` digits at the beginning of the text stand for, if it lies
within the bounds, and what follows it. -/
def readNumber? (count low high : Nat) (text : Text) : Option (Nat × Text) :=
  let digits := text.take count
  let value := digitsValue digits
  if digits.length = count ∧ digits.all Char.isDigit ∧ low ≤ value ∧ value ≤ high then
    some (value, text.drop count)
  else none

/-! ## §1 Dates -/

def isLeapYear (year : Nat) : Bool :=
  year % 4 == 0 && (year % 100 != 0 || year % 400 == 0)

/-- The number of days of a month. -/
def daysIn (year month : Nat) : Nat :=
  if month = 2 then if isLeapYear year then 29 else 28
  else if month = 4 ∨ month = 6 ∨ month = 9 ∨ month = 11 then 30
  else 31

/-- Year, month and day, which must exist in that month. -/
def afterDate? (text : Text) : Option Text := do
  let (year, rest) ← readNumber? 4 0 9999 text
  let (month, rest) ← readNumber? 2 1 12 (← rest.after? "-")
  let (_, rest) ← readNumber? 2 1 (daysIn year month) (← rest.after? "-")
  some rest

/-! ## §2 Times -/

/-- The text behind a point and digits, if such stand at its beginning. -/
def skipFraction (text : Text) : Text :=
  match text with
  | '.' :: rest => if (rest.takeWhile Char.isDigit).isEmpty then text
    else rest.dropWhile Char.isDigit
  | _ => text

/-- Hour and minute. -/
def afterMinute? (text : Text) : Option Text := do
  let (_, rest) ← readNumber? 2 0 23 text
  let (_, rest) ← readNumber? 2 0 59 (← rest.after? ":")
  some rest

/-- Hour, minute and second, which may be a leap second and have a fraction. -/
def afterTime? (text : Text) : Option Text := do
  let rest ← afterMinute? text
  let (_, rest) ← readNumber? 2 0 60 (← rest.after? ":")
  some (skipFraction rest)

/-- The text behind the distance from universal time, if one stands at its beginning. -/
def skipOffset (text : Text) : Text :=
  match text with
  | [] => []
  | c :: rest =>
    if c = 'Z' ∨ c = 'z' then rest
    else if c = '+' ∨ c = '-' then (afterMinute? rest).getD text
    else text

/-- The text behind a time of day that follows a date, if one does. -/
def skipTimeOfDate (text : Text) : Text :=
  match text with
  | [] => []
  | c :: rest =>
    if c = 'T' ∨ c = 't' ∨ c = ' ' then
      match afterTime? rest with
      | some rest => skipOffset rest
      | none => text
    else text

/-! ## §3 Moments -/

/-- What follows the moment at the beginning of the text.  A time of day without a date has no
distance from universal time. -/
def after? (text : Text) : Option Text :=
  match afterDate? text with
  | some rest => some (skipTimeOfDate rest)
  | none => afterTime? text

end Moment

end DeclDocs

import DeclDocs.Json.Basic
import DeclDocs.Text.Number

/-!
# Writing JSON

Two layouts: compact, without any blanks, and pretty, with one field or item per line and two
spaces of indentation per level.  Empty arrays and objects are written `[]` and `{}` in
both.  Quotes, backslashes and control characters are escaped, everything else is written as it
is.
-/

namespace DeclDocs

namespace Json

/-! ## §1 Scalars -/

/-- A hexadecimal digit in lower case. -/
def hexDigit (n : Nat) : Char := Nat.digitChar n

/-- A character inside a JSON string. -/
def escapeChar (c : Char) : Text :=
  if c = '"' then ['\\', '"']
  else if c = '\\' then ['\\', '\\']
  else if c = '\x08' then ['\\', 'b']
  else if c = '\t' then ['\\', 't']
  else if c = '\n' then ['\\', 'n']
  else if c = '\x0c' then ['\\', 'f']
  else if c = '\r' then ['\\', 'r']
  else if c.toNat < 32 then
    ['\\', 'u', '0', '0', hexDigit (c.toNat / 16), hexDigit (c.toNat % 16)]
  else [c]

/-- A JSON string with its quotes. -/
def quote (text : Text) : Text :=
  '"' :: text.flatMap escapeChar ++ ['"']

/-- An integer in decimal digits. -/
def writeInt : Int → Text
  | .ofNat n => decimal n
  | .negSucc n => '-' :: decimal (n + 1)

def writeBool : Bool → Text
  | true => "true"
  | false => "false"

/-! ## §2 Layouts -/

mutual

/-- The value without blanks. -/
def compact : Json → Text
  | null => "null"
  | bool value => writeBool value
  | int value => writeInt value
  | real digits => digits
  | str value => quote value
  | arr items => '[' :: Text.join [','] (compactItems items) ++ [']']
  | obj fields => '{' :: Text.join [','] (compactFields fields) ++ ['}']

def compactItems : List Json → List Text
  | [] => []
  | item :: items => compact item :: compactItems items

def compactFields : List (Text × Json) → List Text
  | [] => []
  | (name, value) :: fields => (quote name ++ ':' :: compact value) :: compactFields fields

end

/-- A line break and the indentation of the given level. -/
def newLine (level : Nat) : Text :=
  '\n' :: List.replicate (2 * level) ' '

/-- Written parts between brackets, each on a line of its own. -/
def bracketed (opening closing : Char) (level : Nat) (parts : List Text) : Text :=
  if parts.isEmpty then [opening, closing]
  else
    opening :: newLine (level + 1) ++ Text.join (',' :: newLine (level + 1)) parts ++
      newLine level ++ [closing]

mutual

/-- The value over several lines, its first line standing at the given level. -/
def prettyAt (level : Nat) : Json → Text
  | null => "null"
  | bool value => writeBool value
  | int value => writeInt value
  | real digits => digits
  | str value => quote value
  | arr items => bracketed '[' ']' level (prettyItems (level + 1) items)
  | obj fields => bracketed '{' '}' level (prettyFields (level + 1) fields)

def prettyItems (level : Nat) : List Json → List Text
  | [] => []
  | item :: items => prettyAt level item :: prettyItems level items

def prettyFields (level : Nat) : List (Text × Json) → List Text
  | [] => []
  | (name, value) :: fields =>
    (quote name ++ ':' :: ' ' :: prettyAt level value) :: prettyFields level fields

end

/-- The value over several lines. -/
def pretty (value : Json) : Text := prettyAt 0 value

end Json

end DeclDocs

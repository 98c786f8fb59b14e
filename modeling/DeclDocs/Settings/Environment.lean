import DeclDocs.Settings.Quoted
import DeclDocs.Settings.Value
import DeclDocs.Text.Blank

/-!
# Settings from the environment

A variable whose name begins with `DOCKET_`, in upper or lower case, sets the value at the path
that the rest of its name spells: two underscores or a dot divide the parts.  Its value is written
as in a settings file, though more loosely: what is neither a truth value, a number, an array, a
table nor quoted text is taken as text.

* `Environment.path?`: the path that a variable's name spells.
* `Environment.value`: the value that a variable's text is.
* `Environment.layer`: all settings from the environment.
-/

namespace DeclDocs

namespace Environment

/-! ## §1 Names -/

/-- The letters in front of the names of all settings, in lower case. -/
def nameMark : Text := "docket_"

/-- The text with every pair of underscores, from the left, turned into a dot. -/
def dotPairs : Text → Text
  | '_' :: '_' :: rest => '.' :: dotPairs rest
  | c :: rest => c :: dotPairs rest
  | [] => []

/-- The path that a variable's name spells; a name with an empty part spells none.  Blanks around
the name and around the whole path are passed over, blanks inside it are not. -/
def path? (name : Text) : Option (List Text) :=
  match Text.after? (Text.trim (name.map Char.toLower)) nameMark with
  | none => none
  | some rest =>
    let parts := Text.split (· == '.') (Text.trim (dotPairs rest))
    if parts.any List.isEmpty then none else some parts

/-! ## §2 Values -/

/-- A blank of ASCII. -/
def isAsciiBlank (c : Char) : Bool :=
  c == ' ' || c == '\t' || c == '\n' || c == '\x0c' || c == '\r'

def skipBlanks (text : Text) : Text := text.dropWhile isAsciiBlank

/-- A character that ends a value without quotes. -/
def isSeparator (c : Char) : Bool :=
  c == ',' || c == '{' || c == '}' || c == '[' || c == ']'

/-- A whole number of 64 bits, with or without a sign. -/
def number? (text : Text) : Option Int :=
  (signedNumber? text).bind fun n => if -signBit ≤ n ∧ n < UInt64.size then some n else none

/-- A value without quotes: a number if it is one, else text. -/
def bareValue (text : Text) : SettingValue :=
  match number? text with
  | some n => .int n
  | none => .text text

/-- A value other than an array or table, blanks in front of it removed. -/
def readScalar? (text : Text) : Option (SettingValue × Text) :=
  if let some rest := text.after? "true" then some (.bool true, rest)
  else if let some rest := text.after? "false" then some (.bool false, rest)
  else
    match text with
    | '"' :: _ => (Quoted.read? false text).map fun (value, rest) => (.text value, rest)
    | '\'' :: _ :: '\'' :: rest => some (.other, rest)
    | '\'' :: _ => none
    | _ =>
      let bare := text.takeWhile fun c => !isSeparator c
      some (bareValue (Text.trim bare), text.dropWhile fun c => !isSeparator c)

/-- The items of an array from the next one on, and what follows the closing bracket. -/
def readItems? (value? : Text → Option (SettingValue × Text)) : (fuel : Nat) → Text →
    Option (List SettingValue × Text)
  | 0, _ => none
  | fuel + 1, text =>
    match text with
    | ']' :: rest => some ([], rest)
    | _ =>
      match value? text with
      | none => none
      | some (item, ']' :: rest) => some ([item], rest)
      | some (item, ',' :: rest) =>
        (readItems? value? fuel rest).map fun (items, rest) => (item :: items, rest)
      | some _ => none

/-- A character of a key without quotes. -/
def isKeyChar (c : Char) : Bool := c.isAlphanum || c == '_' || c == '-'

/-- A key of a table. -/
def readKey? (text : Text) : Option (Text × Text) :=
  match text with
  | '"' :: _ => Quoted.read? false text
  | _ =>
    let key := text.takeWhile isKeyChar
    if key.isEmpty then none else some (key, text.dropWhile isKeyChar)

/-- The fields of a table from the next one on, added to `fields`, and what follows the closing
brace; of fields with one key the last counts. -/
def readFields? (value? : Text → Option (SettingValue × Text)) : (fuel : Nat) →
    (fields : List (Text × SettingValue)) → Text → Option (List (Text × SettingValue) × Text)
  | 0, _, _ => none
  | fuel + 1, fields, text =>
    match text with
    | '}' :: rest => some (fields, rest)
    | _ =>
      match readKey? (skipBlanks text) with
      | none => none
      | some (key, rest) =>
        match skipBlanks rest with
        | '=' :: rest =>
          match value? rest with
          | none => none
          | some (value, '}' :: rest) => some (SettingValue.put key value fields, rest)
          | some (value, ',' :: rest) =>
            readFields? value? fuel (SettingValue.put key value fields) rest
          | some _ => none
        | _ => none

/-- The value at the beginning of the text with the blanks around it, in which arrays and tables
nest at most `depth` deep, and what follows it. -/
def readValue? : (depth : Nat) → Text → Option (SettingValue × Text)
  | 0, _ => none
  | depth + 1, text =>
    let found : Option (SettingValue × Text) :=
      match skipBlanks text with
      | '[' :: rest =>
        (readItems? (readValue? depth) (rest.length + 1) rest).map fun (items, rest) =>
          (SettingValue.array items, rest)
      | '{' :: rest =>
        (readFields? (readValue? depth) (rest.length + 1) [] rest).map fun (fields, rest) =>
          (SettingValue.table fields, rest)
      | text => readScalar? text
    found.map fun (value, rest) => (value, skipBlanks rest)

/-- The value that a variable's text is; text that does not read as a value to its end is itself
the value. -/
def value (text : Text) : SettingValue :=
  match readValue? (text.length + 1) text with
  | some (value, []) => value
  | _ => .text text

/-! ## §3 The layer -/

/-- The settings that variables give, later ones over earlier ones. -/
def layer (environment : List (Text × Text)) : SettingValue :=
  environment.foldl
    (fun settings (name, text) =>
      match path? name with
      | some path => settings.merge (.nest path (value text))
      | none => settings)
    (.table [])

end Environment

end DeclDocs

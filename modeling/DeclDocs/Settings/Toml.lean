import DeclDocs.Settings.Moment
import DeclDocs.Settings.Quoted
import DeclDocs.Settings.Value
import DeclDocs.Settings.Wrapped
import DeclDocs.Text.Double

/-!
# Settings files

Settings files are TOML documents: tables with headers, bare, quoted and dotted keys, strings,
integers of 64 bits, fractions, truth values, dates and times, arrays and inline tables.  A key or
table may be given only once; a table that came about on the way to another one may still get a
header, and a table that dotted keys made may not.

* `TomlItem`: what stands under a key while a document is read.
* `Toml.read?`: the table that a document is.
-/

namespace DeclDocs

/-! ## §1 Tables under construction -/

/-- How a table came about. -/
inductive TableOrigin where
  /-- By a header of its own. -/
  | header
  /-- On the way to a table that has a header. -/
  | implied
  /-- By a dotted key. -/
  | dotted
deriving DecidableEq, Repr

/-- What stands under a key. -/
inductive TomlItem where
  | value (value : SettingValue)
  | table (origin : TableOrigin) (fields : List (Text × TomlItem))
  /-- The tables under repeated headers in double brackets. -/
  | rows (rows : List (List (Text × TomlItem)))

namespace TomlItem

mutual

/-- The finished value. -/
def toValue : TomlItem → SettingValue
  | value given => given
  | table _ fields => .table (fieldValues fields)
  | rows tables => .array (rowValues tables)

def fieldValues : List (Text × TomlItem) → List (Text × SettingValue)
  | [] => []
  | (name, item) :: fields => (name, toValue item) :: fieldValues fields

def rowValues : List (List (Text × TomlItem)) → List SettingValue
  | [] => []
  | row :: others => .table (fieldValues row) :: rowValues others

end

/-- Changes the item under a key, which may be absent; `none` when the change is refused. -/
def alter (name : Text) (change : Option TomlItem → Option TomlItem) :
    List (Text × TomlItem) → Option (List (Text × TomlItem))
  | [] => (change none).map fun item => [(name, item)]
  | (key, item) :: fields =>
    if key = name then (change (some item)).map fun item => (key, item) :: fields
    else (alter name change fields).map ((key, item) :: ·)

/-- Changes the last row. -/
def alterLast (change : List (Text × TomlItem) → Option (List (Text × TomlItem))) :
    List (List (Text × TomlItem)) → Option (List (List (Text × TomlItem)))
  | [] => none
  | [row] => (change row).map ([·])
  | row :: others => (alterLast change others).map (row :: ·)

/-- Goes into the table under a key of a header, which comes about if it is absent. -/
def enter (change : List (Text × TomlItem) → Option (List (Text × TomlItem))) :
    Option TomlItem → Option TomlItem
  | none => (change []).map (table .implied)
  | some (table origin fields) => (change fields).map (table origin)
  | some (rows tables) => (alterLast change tables).map rows
  | some (value _) => none

/-- Opens the table of a header. -/
def openTable : (path : List Text) → List (Text × TomlItem) → Option (List (Text × TomlItem))
  | [], _ => none
  | [name], fields =>
    fields |> alter name fun
      | none => some (table .header [])
      | some (table .implied fields) => some (table .header fields)
      | some _ => none
  | name :: path, fields => alter name (enter (openTable path)) fields

/-- Opens a further row of a header in double brackets. -/
def openRow : (path : List Text) → List (Text × TomlItem) → Option (List (Text × TomlItem))
  | [], _ => none
  | [name], fields =>
    fields |> alter name fun
      | none => some (rows [[]])
      | some (rows tables) => some (rows (tables ++ [[]]))
      | some _ => none
  | name :: path, fields => alter name (enter (openRow path)) fields

/-- Sets a dotted key.  A table with a header is closed to dotted keys, and the last table on the
way must be one that dotted keys made. -/
def putDotted (item : SettingValue) :
    (path : List Text) → List (Text × TomlItem) → Option (List (Text × TomlItem))
  | [], _ => none
  | [name], fields =>
    fields |> alter name fun
      | none => some (value item)
      | some _ => none
  | name :: path, fields =>
    fields |> alter name fun
      | none => (putDotted item path []).map (table .dotted)
      | some (table .dotted fields) => (putDotted item path fields).map (table .dotted)
      | some (table .implied fields) =>
        if path.length = 1 then none else (putDotted item path fields).map (table .implied)
      | some (rows tables) =>
        if path.length = 1 then none else (alterLast (putDotted item path) tables).map rows
      | some (table .header _) | some (value _) => none

/-- Sets a key of the table that the last header opened. -/
def putUnder (item : SettingValue) (key : List Text) :
    (header : List Text) → List (Text × TomlItem) → Option (List (Text × TomlItem))
  | [], fields => putDotted item key fields
  | name :: path, fields => alter name (enter (putUnder item key path)) fields

end TomlItem

namespace Toml

/-! ## §2 Blanks and keys -/

def isBlankChar (c : Char) : Bool := c == ' ' || c == '\t'

def skipBlanks (text : Text) : Text := text.dropWhile isBlankChar

/-- Skips blanks, line breaks and comments. -/
def skipTrivia? (inComment : Bool) : Text → Option Text
  | [] => some []
  | '\n' :: rest => skipTrivia? false rest
  | '\r' :: '\n' :: rest => skipTrivia? false rest
  | c :: rest =>
    if inComment then if Quoted.isQuotable c then skipTrivia? true rest else none
    else if isBlankChar c then skipTrivia? false rest
    else if c = '#' then skipTrivia? true rest
    else some (c :: rest)

/-- Goes to the next line, passing over blanks and a comment; anything else is refused. -/
def endLine? (inComment : Bool) : Text → Option Text
  | [] => some []
  | '\n' :: rest => some rest
  | '\r' :: '\n' :: rest => some rest
  | c :: rest =>
    if inComment then if Quoted.isQuotable c then endLine? true rest else none
    else if isBlankChar c then endLine? false rest
    else if c = '#' then endLine? true rest
    else none

/-- A character of a key without quotes. -/
def isBareChar (c : Char) : Bool := c.isAlphanum || c == '_' || c == '-'

/-- One part of a key. -/
def readPart? (text : Text) : Option (Text × Text) :=
  if text.startsWith "\"" || text.startsWith "'" then Quoted.read? false text
  else
    let part := text.takeWhile isBareChar
    if part.isEmpty then none else some (part, text.dropWhile isBareChar)

/-- How deep arrays and inline tables may nest, and how many parts a key may have. -/
def nestingLimit : Nat := 79

/-- The parts of a key between dots, at most `limit` of them, and what follows the key and the
blanks behind it. -/
def readParts? : (limit : Nat) → Text → Option (List Text × Text)
  | 0, _ => none
  | limit + 1, text =>
    match readPart? text with
    | none => none
    | some (part, rest) =>
      match skipBlanks rest with
      | '.' :: rest =>
        (readParts? limit (skipBlanks rest)).map fun (key, rest) => (part :: key, rest)
      | rest => some ([part], rest)

/-- The key at the beginning of the text, and what follows it and the blanks behind it. -/
def readKey? (text : Text) : Option (List Text × Text) := readParts? nestingLimit text

/-! ## §3 Words -/

/-- The digits of a number whose digits may be grouped by single underscores. -/
def ungroup? (isDigit : Char → Bool) : Text → Option Text
  | [] => none
  | [c] => if isDigit c then some [c] else none
  | c :: '_' :: d :: rest =>
    if isDigit c then (ungroup? isDigit (d :: rest)).map (c :: ·) else none
  | c :: rest => if isDigit c then (ungroup? isDigit rest).map (c :: ·) else none

/-- Decimal digits without a superfluous zero in front. -/
def wholeDigits? (text : Text) : Option Text :=
  (ungroup? Char.isDigit text).bind fun digits =>
    if digits.head? = some '0' ∧ 1 < digits.length then none else some digits

/-- A whole number of 64 bits. -/
def inRange? (n : Int) : Option SettingValue :=
  if -signBit ≤ n ∧ n < signBit then some (.int n) else none

/-- A number in a base that a letter behind a zero names. -/
def basedNumber? (base : Nat) (text : Text) : Option SettingValue := do
  let digits ← ungroup? (fun c => (hexValue? c).isSome) text
  inRange? (← baseValue? base digits)

def integer? (text : Text) : Option SettingValue :=
  match text with
  | '0' :: 'x' :: rest => basedNumber? 16 rest
  | '0' :: 'o' :: rest => basedNumber? 8 rest
  | '0' :: 'b' :: rest => basedNumber? 2 rest
  | _ => do
    let (negative, rest) := readSign text
    let value : Int := digitsValue (← wholeDigits? rest)
    inRange? (if negative then -value else value)

/-- The digits behind the point of a number, if it has one. -/
def fractionDigits? (text : Text) : Option Text :=
  match text with
  | '.' :: rest => ungroup? Char.isDigit rest
  | _ => some []

/-- The power of ten behind the letter of an exponent, zero where there is none. -/
def exponent? (text : Text) : Option Int :=
  match text with
  | [] => some 0
  | _ :: rest => do
    let (negative, rest) := readSign rest
    let value : Int := digitsValue (← ungroup? Char.isDigit rest)
    some (if negative then -value else value)

/-- A number with a fraction, an exponent or both, or one of the words for infinity and no number.
A number without a minus sign must not be too large for double precision; one with a minus sign
may be. -/
def fraction? (text : Text) : Option SettingValue :=
  let (negative, rest) := readSign text
  if rest = "inf" ∨ rest = "nan" then some .other
  else do
    let mantissa : Text := rest.takeWhile fun c => c != 'e' && c != 'E'
    let exponent := rest.drop mantissa.length
    let whole := Text.upTo '.' mantissa
    let fraction := mantissa.drop whole.length
    let wholePart ← wholeDigits? whole
    let fractionPart ← fractionDigits? fraction
    let power ← exponent? exponent
    if exponent.isEmpty && fraction.isEmpty then none
    else if !negative && exceedsDouble (wholePart ++ fractionPart) (power - fractionPart.length)
    then none
    else some .other

/-- A character of a value without quotes and brackets. -/
def isWordChar (c : Char) : Bool :=
  c.isAlphanum || c == '_' || c == '-' || c == '+' || c == '.'

/-- A truth value or number. -/
def word? (text : Text) : Option SettingValue :=
  if text = "true" then some (.bool true)
  else if text = "false" then some (.bool false)
  else
    match integer? text with
    | some value => some value
    | none => fraction? text

/-! ## §4 Values -/

/-- The items of an array from the next one on, and what follows the closing bracket. -/
def readItems? (value? : Text → Option (SettingValue × Text)) : (fuel : Nat) → Text →
    Option (List SettingValue × Text)
  | 0, _ => none
  | fuel + 1, text =>
    match skipTrivia? false text with
    | none => none
    | some (']' :: rest) => some ([], rest)
    | some text =>
      match value? text with
      | none => none
      | some (item, rest) =>
        match skipTrivia? false rest with
        | some (']' :: rest) => some ([item], rest)
        | some (',' :: rest) =>
          (readItems? value? fuel rest).map fun (items, rest) => (item :: items, rest)
        | _ => none

/-- A key, an equals sign and a value. -/
def readPair? (value? : Text → Option (SettingValue × Text)) (text : Text) :
    Option (List Text × SettingValue × Text) := do
  let (key, rest) ← readKey? text
  let rest ← rest.after? "="
  let (value, rest) ← value? (skipBlanks rest)
  some (key, value, rest)

/-- The fields of an inline table from the next one on, and what follows the closing brace. -/
def readFields? (value? : Text → Option (SettingValue × Text)) : (fuel : Nat) →
    List (Text × TomlItem) → Text → Option (List (Text × TomlItem) × Text)
  | 0, _, _ => none
  | fuel + 1, fields, text =>
    match readPair? value? (skipBlanks text) with
    | none => none
    | some (key, value, rest) =>
      match TomlItem.putDotted value key fields with
      | none => none
      | some fields =>
        match skipBlanks rest with
        | '}' :: rest => some (fields, rest)
        | ',' :: rest => readFields? value? fuel fields rest
        | _ => none

/-- A value without brackets.  A date or time counts as a table without settings. -/
def readScalar? (text : Text) : Option (SettingValue × Text) :=
  if text.startsWith "\"" || text.startsWith "'" then
    (Quoted.read? true text).map fun (value, rest) => (.text value, rest)
  else if let some rest := Moment.after? text then some (.table [], rest)
  else (word? (text.takeWhile isWordChar)).map fun value => (value, text.dropWhile isWordChar)

/-- The value at the beginning of the text, in which arrays and tables nest at most `depth` deep,
and what follows it. -/
def readValue? : (depth : Nat) → Text → Option (SettingValue × Text)
  | 0, text => readScalar? text
  | depth + 1, text =>
    match text with
    | '[' :: rest =>
      (readItems? (readValue? depth) (rest.length + 1) rest).map fun (items, rest) =>
        (.array items, rest)
    | '{' :: rest =>
      match skipBlanks rest with
      | '}' :: rest => some (.table [], rest)
      | rest =>
        (readFields? (readValue? depth) (rest.length + 1) [] rest).map fun (fields, rest) =>
          (.table (TomlItem.fieldValues fields), rest)
    | _ => readScalar? text

/-! ## §5 Documents -/

/-- A header's key up to its closing brackets. -/
def readHeader? (closing text : Text) : Option (List Text × Text) := do
  let (key, rest) ← readKey? (skipBlanks text)
  let rest ← rest.after? closing
  some (key, rest)

/-- Reads the lines from the next one on into the fields of the document; `header` is the key of
the table that is open. -/
def readLines? : (fuel : Nat) → (header : List Text) → List (Text × TomlItem) → Text →
    Option (List (Text × TomlItem))
  | 0, _, _, _ => none
  | fuel + 1, header, fields, text =>
    match skipTrivia? false text with
    | none => none
    | some [] => some fields
    | some ('[' :: '[' :: rest) => do
      let (key, rest) ← readHeader? "]]" rest
      let fields ← TomlItem.openRow key fields
      readLines? fuel key fields (← endLine? false rest)
    | some ('[' :: rest) => do
      let (key, rest) ← readHeader? "]" rest
      let fields ← TomlItem.openTable key fields
      readLines? fuel key fields (← endLine? false rest)
    | some text => do
      let (key, value, rest) ← readPair? (readValue? nestingLimit) text
      let fields ← TomlItem.putUnder value key header fields
      readLines? fuel header fields (← endLine? false rest)

/-- The table that a document is, its values unwrapped; a byte order mark in front of it is passed
over. -/
def read? (text : Text) : Option SettingValue :=
  let text := (text.after? ['\ufeff']).getD text
  (readLines? (text.length + 1) [] [] text).bind fun fields =>
    SettingValue.unwrapDocument? (TomlItem.fieldValues fields)

end Toml

end DeclDocs

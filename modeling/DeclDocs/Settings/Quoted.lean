import DeclDocs.Text.Number

/-!
# Quoted text in settings

Double quotes enclose text with escapes, single quotes text as it is.  Three quotes enclose text
that may run over several lines; a line break directly behind them is not part of it, and a
backslash at the end of a line joins it with the next text.

Every reader here starts behind the opening quotes and gives the text and what follows the closing
quotes.
-/

namespace DeclDocs

namespace Quoted

/-- A character that may stand in quoted text: no control character but a tab. -/
def isQuotable (c : Char) : Bool :=
  c == '\t' || (32 ≤ c.toNat && c.toNat != 127)

/-- The character with a code point written in hexadecimal digits. -/
def codePoint? (digits : Text) : Option Char :=
  (hexNumber? digits).bind fun n => if n.isValidChar then some (Char.ofNat n) else none

/-- The character of a single escape letter. -/
def escape? (c : Char) : Option Char :=
  if c = '"' ∨ c = '\\' then some c
  else if c = 'b' then some '\x08'
  else if c = 't' then some '\t'
  else if c = 'n' then some '\n'
  else if c = 'f' then some '\x0c'
  else if c = 'r' then some '\r'
  else none

/-- The character that an escape behind a backslash stands for, and what follows it. -/
def readEscape? (text : Text) : Option (Char × Text) :=
  match text with
  | 'u' :: rest => (codePoint? (rest.take 4)).bind fun c =>
      if (rest.take 4).length = 4 then some (c, rest.drop 4) else none
  | 'U' :: rest => (codePoint? (rest.take 8)).bind fun c =>
      if (rest.take 8).length = 8 then some (c, rest.drop 8) else none
  | c :: rest => (escape? c).map fun c => (c, rest)
  | [] => none

/-- Text in double quotes on one line. -/
def basic? : (fuel : Nat) → Text → Option (Text × Text)
  | 0, _ => none
  | fuel + 1, text =>
    match text with
    | [] => none
    | '"' :: rest => some ([], rest)
    | '\\' :: rest =>
      match readEscape? rest with
      | some (c, rest) => (basic? fuel rest).map fun (value, rest) => (c :: value, rest)
      | none => none
    | c :: rest =>
      if isQuotable c then (basic? fuel rest).map fun (value, rest) => (c :: value, rest) else none

/-- Text in single quotes on one line. -/
def literal? : Text → Option (Text × Text)
  | [] => none
  | '\'' :: rest => some ([], rest)
  | c :: rest =>
    if isQuotable c then (literal? rest).map fun (value, rest) => (c :: value, rest) else none

/-- The text without a line break at its beginning. -/
def dropBreak (text : Text) : Text :=
  match text with
  | '\n' :: rest => rest
  | '\r' :: '\n' :: rest => rest
  | _ => text

/-- The text without the spaces, tabs and line breaks at its beginning. -/
def skipBreaks : Text → Text
  | [] => []
  | '\r' :: '\n' :: rest => skipBreaks rest
  | c :: rest => if c = ' ' ∨ c = '\t' ∨ c = '\n' then skipBreaks rest else c :: rest

/-- Text between three quotes of the given kind over several lines.  Up to two further quotes in
front of the closing ones belong to the text. -/
def multiLine? (quote : Char) (escapes : Bool) : (fuel : Nat) → Text → Option (Text × Text)
  | 0, _ => none
  | fuel + 1, text =>
    let goOn := fun (c : Char) (rest : Text) =>
      (multiLine? quote escapes fuel rest).map fun (value, rest) => (c :: value, rest)
    match text.after? [quote, quote, quote] with
    | some rest =>
      let extra := (rest.take 2).takeWhile (· == quote)
      some (extra, rest.drop extra.length)
    | none =>
      match text with
      | [] => none
      | '\n' :: rest => goOn '\n' rest
      | '\r' :: '\n' :: rest => goOn '\n' rest
      | c :: rest =>
        if escapes && c == '\\' then
          let blanks := rest.dropWhile fun c => c == ' ' || c == '\t'
          if Text.startsWith blanks ['\n'] || Text.startsWith blanks ['\r', '\n'] then
            multiLine? quote escapes fuel (skipBreaks blanks)
          else
            match readEscape? rest with
            | some (c, rest) => goOn c rest
            | none => none
        else if isQuotable c then goOn c rest
        else none

/-- The quoted text at the beginning of the text, if a quote stands there; text over several lines
only where it is allowed. -/
def read? (overLines : Bool) (text : Text) : Option (Text × Text) :=
  match text with
  | '"' :: rest =>
    match overLines, rest with
    | true, '"' :: '"' :: body => multiLine? '"' true (body.length + 1) (dropBreak body)
    | _, _ => basic? (rest.length + 1) rest
  | '\'' :: rest =>
    match overLines, rest with
    | true, '\'' :: '\'' :: body => multiLine? '\'' false (body.length + 1) (dropBreak body)
    | _, _ => literal? rest
  | _ => none

end Quoted

end DeclDocs

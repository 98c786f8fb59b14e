import DeclDocs.Text.Blank
import DeclDocs.Text.WordChar

/-!
# Variables from a file

A file of variables has one assignment per line, `NAME=value`, with an optional `export` in front
and comments behind `#`.  Quotes may enclose a value, and a quoted value may run over several
lines.  A variable that is already set is not set again, and the first line that is no assignment
ends the reading.

* `Dotenv.joinLines`: the lines of the file, those that quotes hold together as one.
* `Dotenv.assignment?`: the assignment on a line.
* `Dotenv.load`: an environment with the variables of a file.
-/

namespace DeclDocs

namespace Dotenv

/-! ## §1 Lines -/

/-- What is open between two characters of a line. -/
inductive Quoting where
  | plain
  /-- Behind a blank, where `#` begins a comment. -/
  | blank
  | escaped
  | weak
  | weakEscaped
  | strong
  | strongEscaped
deriving DecidableEq, Repr

namespace Quoting

/-- What is open behind a character outside quotes. -/
def openedBy (c : Char) : Quoting :=
  if c = '\\' then .escaped
  else if c = '"' then .weak
  else if c = '\'' then .strong
  else .plain

/-- What is open behind a character. -/
def step (quoting : Quoting) (c : Char) : Quoting :=
  match quoting with
  | .plain => if isBlank c && c != '\n' && c != '\r' then .blank else openedBy c
  | .blank => openedBy c
  | .escaped => .plain
  | .weak => if c = '\\' then .weakEscaped else if c = '"' then .plain else .weak
  | .weakEscaped => .weak
  | .strong => if c = '\\' then .strongEscaped else if c = '\'' then .plain else .strong
  | .strongEscaped => .strong

end Quoting

/-- What a line leaves open. -/
inductive LineEnd where
  /-- The line ends in a comment; the text is what stands in front of it. -/
  | comment (before : Text)
  | within (quoting : Quoting)
deriving DecidableEq, Repr

/-- What a line leaves open that begins with the given quoting. -/
def lineEnd (quoting : Quoting) : Text → LineEnd
  | [] => .within quoting
  | c :: cs =>
    if quoting = .blank ∧ c = '#' then .comment []
    else
      match lineEnd (quoting.step c) cs with
      | .comment before => .comment (c :: before)
      | .within quoting => .within quoting

/-- The lines of the text, each with its line feed. -/
def rawLines : Text → List Text
  | [] => []
  | c :: cs =>
    if c = '\n' then [c] :: rawLines cs
    else
      match rawLines cs with
      | [] => [[c]]
      | line :: lines => (c :: line) :: lines

/-- A line without its line break. -/
def dropBreak (line : Text) : Text :=
  match line.before? ['\n'] with
  | some line => line.dropReturn
  | none => line

/-- The lines with those joined that quotes hold together.  `held` has been read and is not
finished.  `none` stands for a text that ends unfinished. -/
def joinLines (held : Text) (quoting : Quoting) : List Text → List (Option Text)
  | [] => if quoting = .plain then [] else [none]
  | line :: lines =>
    let joined := held ++ line
    if (Text.trimStart joined).startsWith ['#'] then some [] :: joinLines [] .plain lines
    else
      match lineEnd quoting line with
      | .comment before => some (held ++ before) :: joinLines [] .plain lines
      | .within .plain => some (dropBreak joined) :: joinLines [] .plain lines
      | .within quoting => joinLines joined quoting lines

/-! ## §2 Assignments -/

/-- A character of a variable's name. -/
def isNameChar (c : Char) : Bool := c.isAlphanum || c == '_' || c == '.'

/-- A variable's name, and what follows it and the blanks behind it. -/
def readName? (text : Text) : Option (Text × Text) :=
  match text with
  | c :: _ =>
    if c.isAlpha || c == '_' then
      some (text.takeWhile isNameChar, Text.trimStart (text.dropWhile isNameChar))
    else none
  | [] => none

/-- The name of the variable that a line assigns, and what follows the equals sign.  `export` may
stand in front of the name, or be the name. -/
def readTarget? (text : Text) : Option (Text × Text) :=
  match readName? text with
  | none => none
  | some (name, '=' :: rest) => some (name, rest)
  | some (name, rest) =>
    if name = "export" then
      match readName? rest with
      | some (name, '=' :: rest) => some (name, rest)
      | _ => none
    else none

/-- How the value behind a dollar sign is being named. -/
inductive Naming where
  | none
  /-- The name runs to the first character that is no letter or digit. -/
  | bare (name : Text)
  /-- The name runs to the closing brace. -/
  | braced (name : Text)
deriving DecidableEq, Repr

/-- The state in which the characters of a value are read. -/
structure ValueState where
  strong : Bool := false
  weak : Bool := false
  escaped : Bool := false
  /-- A blank has ended the value, and only a comment may follow. -/
  ended : Bool := false
  naming : Naming := .none
  output : Text := []
deriving DecidableEq, Repr

namespace ValueState

def push (state : ValueState) (text : Text) : ValueState :=
  { state with output := state.output ++ text }

/-- Reads a character that names no variable and stands outside single quotes. -/
def stepPlain (state : ValueState) (c : Char) : ValueState :=
  if c = '$' then { state with naming := .bare [] }
  else if state.weak then
    if c = '"' then { state with weak := false }
    else if c = '\\' then { state with escaped := true }
    else state.push [c]
  else if c = '\'' then { state with strong := true }
  else if c = '"' then { state with weak := true }
  else if c = '\\' then { state with escaped := true }
  else if c = ' ' ∨ c = '\t' then { state with ended := true }
  else state.push [c]

/-- Reads a character behind a dollar sign. -/
def stepNaming (valueOf : Text → Text) (state : ValueState) (c : Char) : ValueState :=
  match state.naming with
  | .none => state.stepPlain c
  | .bare name =>
    if isAlphanumeric c then { state with naming := .bare (name ++ [c]) }
    else if c = '{' ∧ name.isEmpty then { state with naming := .braced [] }
    else
      let state := { state.push (valueOf name) with naming := .none }
      if c = '$' then { state with naming := .bare [] } else state.push [c]
  | .braced name =>
    if c = '}' then { state.push (valueOf name) with naming := .none }
    else { state with naming := .braced (name ++ [c]) }

/-- Reads a character behind a backslash. -/
def stepEscaped? (state : ValueState) (c : Char) : Option ValueState :=
  let state := { state with escaped := false }
  if c = '\\' ∨ c = '\'' ∨ c = '"' ∨ c = '$' ∨ c = ' ' then some (state.push [c])
  else if c = 'n' then some (state.push ['\n'])
  else none

/-- The value whose characters have all been read, unless a quote or brace is open. -/
def finish? (valueOf : Text → Text) (state : ValueState) : Option Text :=
  if state.strong || state.weak then none
  else
    match state.naming with
    | .none => some state.output
    | .bare name => some (state.output ++ valueOf name)
    | .braced _ => none

end ValueState

/-- The value that the text is, `valueOf` giving the values of other variables. -/
def readValue? (valueOf : Text → Text) (state : ValueState) : Text → Option Text
  | [] => state.finish? valueOf
  | c :: cs =>
    if state.ended then
      if c = ' ' ∨ c = '\t' then readValue? valueOf state cs
      else if c = '#' then state.finish? valueOf
      else none
    else if state.escaped then
      match state.stepEscaped? c with
      | some state => readValue? valueOf state cs
      | none => none
    else if state.strong then
      let state := if c = '\'' then { state with strong := false } else state.push [c]
      readValue? valueOf state cs
    else readValue? valueOf (state.stepNaming valueOf c) cs

/-- What a line does. -/
inductive Line where
  | empty
  | assign (name value : Text)
deriving DecidableEq, Repr

/-- What a line does; `none` when it is malformed. -/
def line? (valueOf : Text → Text) (text : Text) : Option Line :=
  let text := Text.trim text
  if text.isEmpty || text.startsWith ['#'] then some .empty
  else
    match readTarget? text with
    | none => none
    | some (name, rest) =>
      let rest := Text.trimStart rest
      if rest.isEmpty || Text.startsWith rest ['#'] then some (.assign name [])
      else (readValue? valueOf {} rest).map (.assign name)

/-! ## §3 The file -/

/-- Sets the variables of the lines that are not set yet, up to the first malformed line. -/
def assignAll (environment : List (Text × Text)) : List (Option Text) → List (Text × Text)
  | [] => environment
  | none :: _ => environment
  | some text :: lines =>
    match line? (fun name => (environment.lookup name).getD []) text with
    | none => environment
    | some .empty => assignAll environment lines
    | some (.assign name value) =>
      if (environment.lookup name).isSome then assignAll environment lines
      else assignAll (environment ++ [(name, value)]) lines

/-- The variables with those of a file of the given text; a byte order mark is passed over. -/
def load (environment : List (Text × Text)) (text : Text) : List (Text × Text) :=
  let text := (text.after? ['\ufeff']).getD text
  assignAll environment (joinLines [] .plain (rawLines text))

end Dotenv

end DeclDocs

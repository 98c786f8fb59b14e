import DeclDocs.Text.Number

/-!
# Arguments of the command

The command has two subcommands, `parse` and `locate`, with options of their own, and three options
that may stand on either side of the subcommand's name.  Options have long and short forms; short
ones may be run together, and a value may be attached to its option.

Arguments are read from the left.  An option waits for its value until it is settled by the next
option, by the file, or by the end of its level; only then is it seen that the value is missing or
bad or that the option was given before.  The level of the subcommand is finished before that of
the command.

* `Invocation.ofArguments`: what the arguments ask for, or why they are refused.
-/

namespace DeclDocs

/-! ## §1 What can be asked for -/

/-- Why arguments are refused or answered with a text about the command. -/
inductive UsageError where
  | displayHelp
  | displayVersion
  /-- No arguments at all. -/
  | noArguments
  | missingSubcommand
  | invalidSubcommand
  | missingRequiredArgument
  | unknownArgument
  | invalidValue
  | valueValidation
  | argumentConflict
  | tooManyValues
deriving DecidableEq, Repr

/-- A subcommand with its arguments. -/
inductive Command where
  /-- Print the model of a file. -/
  | parse (file : Text) (symbols : Option Text) (compact : Bool)
  /-- Print the method at a line of a file. -/
  | locate (file : Text) (line : UInt32) (symbols : Option Text)
deriving DecidableEq, Repr

/-- What the arguments ask for. -/
structure Invocation where
  command : Command
  quiet : Bool
  verbose : Bool
  /-- A settings file. -/
  config : Option Text
deriving DecidableEq, Repr

/-! ## §2 Options -/

/-- The things that an argument can give. -/
inductive ArgumentId where
  | file
  | quiet
  | verbose
  | config
  | symbols
  | compact
  | line
  | help
  | version
deriving DecidableEq, Repr

/-- An option. -/
structure OptionSpec where
  id : ArgumentId
  short : Option Char
  long : Text
  takesValue : Bool := false

def helpOption : OptionSpec := { id := .help, short := some 'h', long := "help" }

/-- The options of both levels. -/
def globalOptions : List OptionSpec :=
  [{ id := .quiet, short := some 'q', long := "quiet" },
   { id := .verbose, short := some 'v', long := "verbose" },
   { id := .config, short := some 'c', long := "config", takesValue := true },
   helpOption]

def symbolsOption : OptionSpec :=
  { id := .symbols, short := some 's', long := "symbols", takesValue := true }

/-- The levels at which arguments are read. -/
inductive Level where
  | top
  | parse
  | locate
deriving DecidableEq, Repr

namespace Level

/-- The options of a level. -/
def options : Level → List OptionSpec
  | top => { id := .version, short := some 'V', long := "version" } :: globalOptions
  | parse => symbolsOption :: { id := .compact, short := none, long := "compact" } :: globalOptions
  | locate =>
    symbolsOption :: { id := .line, short := some 'l', long := "line", takesValue := true } ::
      globalOptions

/-- The level takes a file. -/
def takesFile : Level → Bool
  | top => false
  | _ => true

/-- The arguments that a level must have. -/
def required : Level → List ArgumentId
  | top => []
  | parse => [.file]
  | locate => [.file, .line]

end Level

/-- The subcommands by name. -/
def subcommand? (name : Text) : Option Level :=
  if name = "parse" then some .parse else if name = "locate" then some .locate else none

/-- The name of the subcommand that explains the others. -/
def helpName : Text := "help"

/-! ## §3 Reading one level -/

/-- A line number: a whole number of 64 bits that fits into 32 bits without a sign. -/
def lineArgument? (text : Text) : Option UInt32 :=
  (signedNumber? text).bind fun n =>
    if 0 ≤ n ∧ n < UInt32.size then some (UInt32.ofNat n.toNat) else none

/-- A value that an argument can have. -/
def checkValue (id : ArgumentId) (value : Text) : Except UsageError Unit :=
  match id with
  | .line => if (lineArgument? value).isSome then .ok () else .error .valueValidation
  | .file | .config | .symbols => if value.isEmpty then .error .invalidValue else .ok ()
  | _ => .ok ()

/-- What has been read of a level. -/
structure LevelState where
  /-- The settled arguments with their values. -/
  settled : List (ArgumentId × Text) := []
  /-- An argument that is not settled, with its value if that has been read. -/
  pending : Option (ArgumentId × Option Text) := none
  /-- The pending option takes the next argument as its value. -/
  awaitsValue : Bool := false
  /-- Two dashes have ended the options. -/
  optionsEnded : Bool := false

namespace LevelState

def given (state : LevelState) (id : ArgumentId) : Bool :=
  (state.settled.lookup id).isSome

/-- Settles an argument. -/
def settle (state : LevelState) (id : ArgumentId) (value : Text) : Except UsageError LevelState :=
  if state.given id then .error .argumentConflict
  else do
    checkValue id value
    return { state with settled := state.settled ++ [(id, value)] }

/-- Settles the pending argument. -/
def settlePending (state : LevelState) : Except UsageError LevelState :=
  match state.pending with
  | none => .ok state
  | some (_, none) => .error .invalidValue
  | some (id, some value) => settle { state with pending := none } id value

/-- Settles an option that has its value, or a flag. -/
def giveOption (state : LevelState) (id : ArgumentId) (value : Text) :
    Except UsageError LevelState := do
  let state ← state.settlePending
  match id with
  | .help => .error .displayHelp
  | .version => .error .displayVersion
  | id => settle { state with awaitsValue := false } id value

/-- Makes an option wait for its value. -/
def awaitOption (state : LevelState) (id : ArgumentId) : Except UsageError LevelState := do
  let state ← state.settlePending
  return { state with pending := some (id, none), awaitsValue := true }

/-- Reads an argument that begins with two dashes, which have been removed. -/
def readLong (level : Level) (state : LevelState) (text : Text) : Except UsageError LevelState :=
  let name := Text.upTo '=' text
  let attached := (text.drop name.length).tail?
  match level.options.find? fun option => option.long == name with
  | none => .error .unknownArgument
  | some option =>
    match option.takesValue, attached with
    | true, some value => state.giveOption option.id value
    | true, none => state.awaitOption option.id
    | false, some _ => .error .tooManyValues
    | false, none => state.giveOption option.id []

/-- Reads options run together behind one dash. -/
def readShort (level : Level) (state : LevelState) : Text → Except UsageError LevelState
  | [] => .ok { state with awaitsValue := false }
  | c :: rest =>
    match level.options.find? fun option => option.short == some c with
    | none => .error .unknownArgument
    | some option =>
      if option.takesValue then
        if rest.isEmpty then state.awaitOption option.id
        else state.giveOption option.id ((Text.after? rest "=").getD rest)
      else
        match state.giveOption option.id [] with
        | .ok state => readShort level state rest
        | .error error => .error error

/-- Reads an argument that is no option and no option's value. -/
def readFile (level : Level) (state : LevelState) (text : Text) : Except UsageError LevelState :=
  if level.takesFile && !state.given .file && (state.pending.map Prod.fst) != some .file then do
    let state ← state.settlePending
    return { state with pending := some (.file, some text) }
  else if level.takesFile then .error .unknownArgument
  else if state.optionsEnded && ((subcommand? text).isSome || text == helpName) then
    .error .unknownArgument
  else .error .invalidSubcommand

/-- Reads an argument that is no subcommand. -/
def read (level : Level) (state : LevelState) (text : Text) : Except UsageError LevelState :=
  if state.optionsEnded then state.readFile level text
  else if text = "--" then .ok { state with optionsEnded := true }
  else
    match text with
    | '-' :: '-' :: long => state.readLong level long
    | '-' :: c :: rest => state.readShort level (c :: rest)
    | _ =>
      match state.awaitsValue, state.pending with
      | true, some (id, _) =>
        .ok { state with pending := some (id, some text), awaitsValue := false }
      | _, _ => state.readFile level text

end LevelState

/-- Reads the arguments of a subcommand. -/
def readSubcommand (level : Level) (state : LevelState) :
    List Text → Except UsageError LevelState
  | [] => do
    let state ← state.settlePending
    if level.required.all state.given then return state else .error .missingRequiredArgument
  | argument :: rest => do readSubcommand level (← state.read level argument) rest

/-! ## §4 Reading both levels -/

/-- The answer to a request for help on the named subcommands. -/
def helpAnswer (names : List Text) : UsageError :=
  match names with
  | [] => .displayHelp
  | [name] =>
    if (subcommand? name).isSome || name == helpName then .displayHelp else .invalidSubcommand
  | _ => .invalidSubcommand

/-- Reads the arguments of the command up to the name of a subcommand, then those of the
subcommand. -/
def readCommand (state : LevelState) :
    List Text → Except UsageError (LevelState × Level × LevelState)
  | [] => do
    let state ← state.settlePending
    .error (if state.settled.isEmpty then .noArguments else .missingSubcommand)
  | argument :: rest =>
    if state.optionsEnded || state.awaitsValue then
      match state.read .top argument with
      | .ok state => readCommand state rest
      | .error error => .error error
    else if argument = helpName then .error (helpAnswer rest)
    else
      match subcommand? argument with
      | some level => do
        let below ← readSubcommand level {} rest
        return (← state.settlePending, level, below)
      | none =>
        match state.read .top argument with
        | .ok state => readCommand state rest
        | .error error => .error error

namespace Invocation

/-- The subcommand that settled arguments ask for. -/
def command? (level : Level) (settled : List (ArgumentId × Text)) : Option Command := do
  let file ← settled.lookup .file
  let symbols := settled.lookup .symbols
  match level with
  | .top => none
  | .parse => some (.parse file symbols (settled.lookup .compact).isSome)
  | .locate => some (.locate file (← (settled.lookup .line).bind lineArgument?) symbols)

/-- What the arguments ask for.  A settings file behind the subcommand's name comes before one in
front of it. -/
def ofArguments (arguments : List Text) : Except UsageError Invocation := do
  let (above, level, below) ← readCommand {} arguments
  match command? level below.settled with
  | none => .error .missingRequiredArgument
  | some command =>
    return {
      command
      quiet := above.given .quiet || below.given .quiet
      verbose := above.given .verbose || below.given .verbose
      config := (below.settled.lookup .config).or (above.settled.lookup .config) }

end Invocation

end DeclDocs

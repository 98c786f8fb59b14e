import DeclDocs.Command.Arguments
import DeclDocs.Json.Read
import DeclDocs.Json.Write
import DeclDocs.Model.Build
import DeclDocs.Model.Encode
import DeclDocs.Model.Locate
import DeclDocs.Outline.Wire
import DeclDocs.Settings.Basic

/-!
# Running the command

The command reads its arguments, loads the settings and prints the documentation of a source file
as JSON: the whole model, or the method at a line.  The outline comes from a dump of symbols; a
dump that is not JSON counts as one without symbols, while a dump that does not exist is refused.

* `Command.run`: what the command prints for its arguments.
-/

namespace DeclDocs

/-- What the command finds around it. -/
structure Surroundings where
  /-- What stands at a path. -/
  files : Text → FileStatus
  environment : List (Text × Text)
  /-- The path of the user's settings file. -/
  userFile : Option Text := none
  /-- The working folder. -/
  folder : Text

/-- Why the command prints nothing. -/
inductive CommandError where
  | usage (error : UsageError)
  | settings (error : SettingsError)
  | missingDump (path : Text)
  | unreadableSource (path : Text) (error : FileError)
deriving DecidableEq, Repr

/-- What the command prints. -/
structure Printed where
  /-- The text with its final line break. -/
  text : Text
  quiet : Bool
  verbose : Bool
deriving DecidableEq, Repr

namespace CommandError

/-- The error in words, as far as it is not about arguments. -/
def message : CommandError → Text
  | usage _ => []
  | settings error => error.message
  | missingDump path => "symbol dump '" ++ path ++ "' does not exist"
  | unreadableSource path error =>
    "failed to read source file " ++ path ++ ": " ++ error.message

end CommandError

namespace Surroundings

/-- The settings, with the variables of the variables file. -/
def settings (around : Surroundings) (named : Option Text) : Except SettingsError Settings :=
  Settings.load (Settings.Sources.withVariablesFile
    { files := around.files, environment := around.environment, userFile := around.userFile
      namedFile := named })

/-- The outline in a dump of symbols. -/
def dumpedSymbols (around : Surroundings) (dump : Option Text) : List DeclarationSymbol :=
  match dump with
  | none => []
  | some path =>
    match (around.files path).readText with
    | .error _ => []
    | .ok text => ((Json.read? text).map normalize).getD []

/-- The model of a source file. -/
def document (around : Surroundings) (settings : Settings) (file : Text) (dump : Option Text) :
    Except CommandError DocumentModel :=
  match dump.filter fun path => !(around.files path).isFile with
  | some path => .error (.missingDump path)
  | none =>
    match (around.files file).readText with
    | .error error => .error (.unreadableSource file error)
    | .ok text =>
      let options : ModelOptions :=
        { maxSignatureLines := settings.reading.maxSignatureLines
          preferFileNameContainer := settings.reading.preferFileNameContainer }
      .ok (buildModel ⟨absolutePath around.folder file⟩ text (around.dumpedSymbols dump) options)

end Surroundings

namespace Command

/-- The value that a command prints, and its layout. -/
def execute (around : Surroundings) (settings : Settings) : Command → Except CommandError Text
  | parse file symbols compact => do
    let model ← around.document settings file symbols
    return if compact then model.toJson.compact else model.toJson.pretty
  | locate file line symbols => do
    let model ← around.document settings file symbols
    let found := (locateEnclosing model.methods line).map MethodDoc.toJson
    return (Json.ofOption found).pretty

/-- What the command prints for its arguments. -/
def run (around : Surroundings) (arguments : List Text) : Except CommandError Printed :=
  match Invocation.ofArguments arguments with
  | .error error => .error (.usage error)
  | .ok invocation =>
    match around.settings invocation.config with
    | .error error => .error (.settings error)
    | .ok settings => do
      let text ← execute around settings invocation.command
      return { text := text ++ ['\n'], quiet := invocation.quiet, verbose := invocation.verbose }

end Command

end DeclDocs

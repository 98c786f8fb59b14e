import DeclDocs.Command.Run

/-!
# The command line

Looks up the files that the arguments and the settings name, runs the command on them and prints
what it gives.  Errors go to standard error.
-/

namespace DeclDocs

/-- The words for arguments that are refused. -/
def UsageError.message : UsageError → String
  | .displayHelp => "usage: docket [-q] [-v] [-c PATH] (parse FILE [-s PATH] [--compact] | " ++
      "locate FILE -l LINE [-s PATH])"
  | .displayVersion => "docket 0.1.0"
  | .noArguments => "a subcommand is required: parse or locate"
  | .missingSubcommand => "a subcommand is required: parse or locate"
  | .invalidSubcommand => "unrecognized subcommand"
  | .missingRequiredArgument => "a required argument is missing"
  | .unknownArgument => "unexpected argument"
  | .invalidValue => "a value is required"
  | .valueValidation => "invalid value"
  | .argumentConflict => "an argument cannot be used multiple times"
  | .tooManyValues => "unexpected value"

/-- The paths that the command looks at. -/
def lookedAt (userFile : Option Text) (arguments : List Text) : List Text :=
  let fixed := [Settings.variablesFile, Settings.projectFile] ++ userFile.toList
  match Invocation.ofArguments arguments with
  | .error _ => fixed
  | .ok invocation =>
    let named := match invocation.command with
      | .parse file symbols _ => file :: symbols.toList
      | .locate file _ symbols => file :: symbols.toList
    fixed ++ invocation.config.toList ++ named

/-- What stands at a path. -/
def lookAt (path : Text) : IO FileStatus := do
  try
    let content ← IO.FS.readBinFile (String.ofList path)
    return .file (.bytes content.toList)
  catch error =>
    match error with
    | .inappropriateType _ code _ => return if code = 21 then .folder else .blocked
    | .invalidArgument _ code _ => return if code = 22 then .nulInName else .nameTooLong
    | _ => return .missing

/-- The variables of the environment. -/
def environmentVariables : IO (List (Text × Text)) := do
  match ← lookAt "/proc/self/environ" with
  | .file content =>
    return (Text.split (·.toNat == 0) content.readableText).filterMap fun entry => entry.cut? "="
  | _ => return []

/-- The path of the user's settings file. -/
def userSettingsFile (environment : List (Text × Text)) : Option Text :=
  let folder := match environment.lookup ("XDG_CONFIG_HOME" : Text) with
    | some folder => if folder.startsWith "/" then some folder else none
    | none => none
  let home : Option Text := (environment.lookup ("HOME" : Text)).map fun home => home ++ "/.config"
  (folder.or home).map fun folder => folder ++ "/docket/config.toml"

/-- Runs the command on the files and variables of the machine. -/
def runCommand (arguments : List Text) : IO (Except CommandError Printed) := do
  let environment ← environmentVariables
  let userFile := userSettingsFile environment
  let found ← (lookedAt userFile arguments).mapM fun path => do return (path, ← lookAt path)
  let folder := (← IO.currentDir).toString.toList
  let files := fun path => (found.lookup path).getD .missing
  return Command.run { files, environment, userFile, folder } arguments

end DeclDocs

open DeclDocs in
/-- The exit code is 2 for refused arguments and 1 for other errors. -/
def main (arguments : List String) : IO UInt32 := do
  match ← runCommand (arguments.map String.toList) with
  | .ok printed =>
    IO.print (String.ofList printed.text)
    return 0
  | .error (.usage .displayHelp) =>
    IO.println UsageError.displayHelp.message
    return 0
  | .error (.usage .displayVersion) =>
    IO.println UsageError.displayVersion.message
    return 0
  | .error (.usage error) =>
    IO.eprintln ("error: " ++ error.message)
    return 2
  | .error (.settings error) =>
    IO.eprintln ("docket error: failed to load docket configuration: " ++
      String.ofList error.message)
    return 1
  | .error error =>
    IO.eprintln ("docket error: " ++ String.ofList error.message)
    return 1

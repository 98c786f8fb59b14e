import DeclDocs.Files.Basic
import DeclDocs.Settings.Dotenv
import DeclDocs.Settings.Environment
import DeclDocs.Settings.Toml
import DeclDocs.Signature.Extract

/-!
# Settings

Settings are merged from five layers: the defaults, the user's file, the project's file, a file
that the caller names, and the environment.  A file that is missing counts as empty; one that is
not a settings file at all is refused.  Kinds of values are checked on the merged settings only, so
a higher layer can mend a lower one.

* `Settings.ofValue?`: settings from merged values.
* `Settings.check`: settings that make no sense are refused.
* `Settings.load`: the settings of a place.
-/

namespace DeclDocs

/-! ## §1 Settings -/

structure CacheSettings where
  /-- Most outlines that are kept. -/
  capacity : Nat := 50
deriving DecidableEq, Repr

structure ReadingSettings where
  /-- Most lines of a signature. -/
  maxSignatureLines : Nat := defaultSignatureLines
  /-- The container named like the file comes before the first one. -/
  preferFileNameContainer : Bool := true
deriving DecidableEq, Repr

structure Settings where
  cache : CacheSettings := {}
  reading : ReadingSettings := {}
deriving DecidableEq, Repr

/-- Why settings are refused. -/
inductive SettingsError where
  /-- A layer cannot be read, or a setting has a value of the wrong kind. -/
  | malformed
  /-- A setting has a value that makes no sense. -/
  | invalidValue (field reason : Text)
deriving DecidableEq, Repr

/-- The error in words. -/
def SettingsError.message : SettingsError → Text
  | malformed => "Configuration error"
  | invalidValue field reason =>
    "Invalid configuration value for '" ++ field ++ "': " ++ reason

/-! ## §2 From values -/

namespace SettingValue

/-- A natural number. -/
def nat? : SettingValue → Option Nat
  | int value => if 0 ≤ value then some value.toNat else none
  | _ => none

def bool? : SettingValue → Option Bool
  | bool value => some value
  | _ => none

/-- A field of a section, which is a table of fields by name or an array of fields by place; an
absent field has its default. -/
def field? {α : Type} (place : Nat) (name : Text) (decode? : SettingValue → Option α) (default : α)
    (value : SettingValue) : Option α :=
  match value with
  | table fields => ((lookup? name fields).map decode?).getD (some default)
  | array items => (items[place]?.map decode?).getD (some default)
  | _ => none

end SettingValue

namespace Settings

/-- The settings as a layer. -/
def toValue (settings : Settings) : SettingValue :=
  .table
    [("cache", .table [("capacity", .int settings.cache.capacity)]),
      ("parser", .table [("max_signature_lines", .int settings.reading.maxSignatureLines),
        ("prefer_file_name_container", .bool settings.reading.preferFileNameContainer)])]

def cacheOfValue? (value : SettingValue) : Option CacheSettings := do
  let capacity ← value.field? 0 "capacity" SettingValue.nat? 50
  some { capacity }

def readingOfValue? (value : SettingValue) : Option ReadingSettings := do
  let maxSignatureLines ←
    value.field? 0 "max_signature_lines" SettingValue.nat? defaultSignatureLines
  let preferFileNameContainer ←
    value.field? 1 "prefer_file_name_container" SettingValue.bool? true
  some { maxSignatureLines, preferFileNameContainer }

/-- Settings from merged values. -/
def ofValue? (value : SettingValue) : Option Settings := do
  let cache ← value.field? 0 "cache" cacheOfValue? {}
  let reading ← value.field? 1 "parser" readingOfValue? {}
  some { cache, reading }

/-- The first setting that makes no sense. -/
def check (settings : Settings) : Except SettingsError Unit :=
  if settings.cache.capacity = 0 then
    .error (.invalidValue "cache.capacity" "must hold at least one entry")
  else if settings.reading.maxSignatureLines = 0 then
    .error (.invalidValue "parser.max_signature_lines" "must be at least 1")
  else .ok ()

/-! ## §3 Loading -/

/-- The places from which settings are loaded. -/
structure Sources where
  /-- What stands at a path. -/
  files : Text → FileStatus
  environment : List (Text × Text)
  /-- The path of the user's file. -/
  userFile : Option Text := none
  /-- The path of a file that the caller names. -/
  namedFile : Option Text := none

/-- The path of the project's file. -/
def projectFile : Text := ".docket/config.toml"

/-- The path of the file of variables. -/
def variablesFile : Text := ".env"

namespace Sources

/-- The sources with the variables of the variables file. -/
def withVariablesFile (sources : Sources) : Sources :=
  match sources.files variablesFile with
  | .file content =>
    { sources with environment := Dotenv.load sources.environment content.readableText }
  | _ => sources

/-- The layer of a file: `none` when it is no settings file. -/
def fileLayer? (sources : Sources) (path : Text) : Option SettingValue :=
  match sources.files path with
  | .file content => content.text?.bind Toml.read?
  | _ => some (.table [])

/-- The layers of the files, lowest first. -/
def fileLayers? (sources : Sources) : Option (List SettingValue) :=
  (sources.userFile.toList ++ [projectFile] ++ sources.namedFile.toList).mapM sources.fileLayer?

end Sources

/-- The settings of the given sources, unchecked. -/
def merged (sources : Sources) : Except SettingsError Settings :=
  match sources.fileLayers? with
  | none => .error .malformed
  | some layers =>
    let value := (layers ++ [Environment.layer sources.environment]).foldl SettingValue.merge
      (toValue {})
    match ofValue? value with
    | some settings => .ok settings
    | none => .error .malformed

/-- The settings of the given sources. -/
def load (sources : Sources) : Except SettingsError Settings := do
  let settings ← merged sources
  settings.check
  return settings

end Settings

end DeclDocs

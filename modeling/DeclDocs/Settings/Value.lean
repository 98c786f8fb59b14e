import DeclDocs.Text.Basic

/-!
# Setting values

Settings come in layers: files and the environment each give a table of values, and a higher layer
is merged over a lower one.  Tables merge field by field; any other value replaces what was there.
-/

namespace DeclDocs

/-- A value of a settings layer. -/
inductive SettingValue where
  | bool (value : Bool)
  | int (value : Int)
  | text (value : Text)
  /-- A value of a kind that no setting has, such as a fraction. -/
  | other
  | array (items : List SettingValue)
  | table (fields : List (Text × SettingValue))

namespace SettingValue

/-- The value of a field. -/
def lookup? (name : Text) : List (Text × SettingValue) → Option SettingValue
  | [] => none
  | (key, value) :: fields => if key = name then some value else lookup? name fields

/-- The fields with the given one set. -/
def put (name : Text) (value : SettingValue) :
    List (Text × SettingValue) → List (Text × SettingValue)
  | [] => [(name, value)]
  | (key, old) :: fields =>
    if key = name then (name, value) :: fields else (key, old) :: put name value fields

mutual

/-- The value `upper` over the value `lower`. -/
def merge (lower : SettingValue) : (upper : SettingValue) → SettingValue
  | table upper =>
    match lower with
    | table fields => table (mergeFields fields upper)
    | _ => table upper
  | upper => upper

/-- The fields `upper` over the fields `lower`. -/
def mergeFields (lower : List (Text × SettingValue)) :
    (upper : List (Text × SettingValue)) → List (Text × SettingValue)
  | [] => lower
  | (name, value) :: fields =>
    let merged := match lookup? name lower with
      | some old => merge old value
      | none => value
    mergeFields (put name merged lower) fields

end

/-- The table that holds a value at a path of fields. -/
def nest (path : List Text) (value : SettingValue) : SettingValue :=
  path.foldr (fun name inner => table [(name, inner)]) value

end SettingValue

end DeclDocs

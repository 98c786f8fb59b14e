import DeclDocs.Settings.Value

/-!
# Wrapped values

In a settings file a table may wrap another value: a table with the field `valueField` stands for
the value of that field, whatever other fields it has.  The field `originField` is reserved for
values that know where they came from, and a table that has it is refused.  Wrapping goes to any
depth, in arrays too.  The document itself is no value and wraps nothing.

* `SettingValue.unwrap?`: the value that a value of a file stands for.
* `SettingValue.unwrapDocument?`: the document with all its values unwrapped.
-/

namespace DeclDocs

namespace SettingValue

/-- The field of a table that stands for its value. -/
def valueField : Text := "___figment_value_value"

/-- The field that no table of a file may have. -/
def originField : Text := "___figment_value_id"

mutual

/-- The value that a value of a file stands for. -/
def unwrap? : SettingValue → Option SettingValue
  | array items => (unwrapItems? items).map array
  | table fields =>
    (unwrapFields? fields).map fun fields => (lookup? valueField fields).getD (table fields)
  | value => some value

/-- The items of an array, unwrapped. -/
def unwrapItems? : List SettingValue → Option (List SettingValue)
  | [] => some []
  | item :: items =>
    match unwrap? item, unwrapItems? items with
    | some item, some items => some (item :: items)
    | _, _ => none

/-- The fields of a table, unwrapped. -/
def unwrapFields? : List (Text × SettingValue) → Option (List (Text × SettingValue))
  | [] => some []
  | (name, value) :: fields =>
    if name = originField then none
    else
      match unwrap? value, unwrapFields? fields with
      | some value, some fields => some ((name, value) :: fields)
      | _, _ => none

end

/-- The document with all its values unwrapped. -/
def unwrapDocument? (fields : List (Text × SettingValue)) : Option SettingValue :=
  let unwrapped? := fun (field : Text × SettingValue) =>
    (unwrap? field.2).map fun value => (field.1, value)
  (fields.mapM unwrapped?).map table

end SettingValue

end DeclDocs

/-
Settings that an editor sends when it starts the server. They are one object in
the shape of the tables of settings, and each value in it is set over all layers.
-/
import Mdx.Editor.Json
import Mdx.Settings.Basic

namespace Mdx.Editor

/-- An integer of 64 bits, or the number nearest to a larger one. -/
def integerSetting (i : Int) : Setting :=
  if -Int.pow 2 63 ≤ i ∧ i < Int.pow 2 63 then .int i else .number (.ofInt i)

/-- The path of a member of an object at a path. -/
def memberPath (path name : String) : String := if path.isEmpty then name else path ++ "." ++ name

mutual

/-- The values to be set, each with its path. A list is that of the texts in it, and null sets
nothing. -/
def overridesAt (path : String) : JsonValue → List (String × Setting)
  | .null => []
  | .bool b => [(path, .bool b)]
  | .int i => [(path, integerSetting i)]
  | .number x => [(path, .number x)]
  | .text t => [(path, .text t)]
  | .array items => [(path, .list (items.filterMap fun item => item.text?.map Setting.text))]
  | .object members => memberOverrides path members

/-- The values to be set by the members of an object. -/
def memberOverrides (path : String) : List (String × JsonValue) → List (String × Setting)
  | [] => []
  | (name, value) :: members =>
    overridesAt (memberPath path name) value ++ memberOverrides path members

end

/-- The values that options set; only an object sets any. -/
def overridesOf : JsonValue → List (String × Setting)
  | .object members => memberOverrides "" members
  | _ => []

/-- The settings of a loader under the options of an editor. -/
def settingsFrom (l : Loader) (options : JsonValue) : Except SettingsError Settings := do
  (← (overridesOf options).foldlM (fun l (key, value) => l.set key value) l).build

end Mdx.Editor

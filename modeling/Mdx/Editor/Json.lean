/-
The values that are exchanged with an editor.
-/
import Mdx.Number

namespace Mdx

/-- A value of the editor protocol. -/
inductive JsonValue where
  | null
  | bool (value : Bool)
  | int (value : Int)
  | number (value : Number)
  | text (value : String)
  | array (items : List JsonValue)
  /-- The members are in the order of their names, no name twice. -/
  | object (members : List (String × JsonValue))
  deriving Inhabited

namespace JsonValue

/-- The text of a text. -/
def text? : JsonValue → Option String
  | text t => some t
  | _ => none

/-- The member of an object by that name. One that is null counts as not there. -/
def member? (name : String) : JsonValue → Option JsonValue
  | object members =>
    match members.lookup name with
    | some null => none
    | found => found
  | _ => none

/-- The items of an array; another value has none. -/
def items : JsonValue → List JsonValue
  | array items => items
  | _ => []

/-- An object of the members that are there. -/
def ofMembers (members : List (String × Option JsonValue)) : JsonValue :=
  object (members.filterMap fun (name, value) => value.map (name, ·))

end JsonValue

end Mdx

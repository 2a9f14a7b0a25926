/-
The values that settings are made of before they have types, and how they are
layered: a value of a later layer takes the place of an earlier one, and tables
are joined key by key. Case does not matter in keys; they are kept in small
letters.
-/
import Mdx.Keyed
import Mdx.Number

namespace Mdx

/-- A value in a layer of settings. -/
inductive Setting where
  | null
  | bool (value : Bool)
  | int (value : Int)
  | number (value : Number)
  | text (value : String)
  | list (items : List Setting)
  /-- A table has no key twice. -/
  | table (entries : List (String × Setting))

/-- A key as it is kept. Beyond ASCII, only the Kelvin sign has a small letter that a known key could
have. -/
def keptKey (key : String) : String :=
  String.ofList (key.toList.map fun c => if c == '\u212A' then 'k' else c.toLower)

namespace Setting

open Keyed (find? put)

/-- The entries of a table; another value has none. -/
def entries : Setting → List (String × Setting)
  | table es => es
  | _ => []

/-- The items of a list; another value has none. -/
def items : Setting → List Setting
  | list xs => xs
  | _ => []

/-- The value itself if it is a table, or else an empty one. -/
def asTable (s : Setting) : Setting := table s.entries

mutual

/-- The entries with `value` laid over that of a key: a table is joined to what is there, and any
other value takes its place. -/
def lay (entries : List (String × Setting)) (key : String) : (value : Setting) → List (String × Setting)
  | .table incoming =>
    put (keptKey key) (join ((find? (keptKey key) entries).getD (.table [])) incoming) entries
  | .null => put (keptKey key) .null entries
  | .bool b => put (keptKey key) (.bool b) entries
  | .int i => put (keptKey key) (.int i) entries
  | .number x => put (keptKey key) (.number x) entries
  | .text t => put (keptKey key) (.text t) entries
  | .list xs => put (keptKey key) (.list xs) entries

/-- A value with entries laid over its own; it becomes a table with the first of them. -/
def join (target : Setting) : (incoming : List (String × Setting)) → Setting
  | [] => target
  | (key, value) :: incoming => join (.table (lay target.entries key value)) incoming

end

/-- What lies at a place after `value` is laid over `old` there. -/
def replacing (value old : Setting) : Setting :=
  match value with
  | .table incoming => join old.asTable incoming
  | v => v

/-- The truth of a value. Numbers are true if they are not zero, and some words are read either way
whatever their case. -/
def toBool? : Setting → Option Bool
  | bool b => some b
  | int i => some (i != 0)
  | number x => some !x.isZero
  | text t =>
    let word := String.ofList (t.toList.map Char.toLower)
    if word ∈ ["1", "true", "on", "yes"] then some true
    else if word ∈ ["0", "false", "off", "no"] then some false
    else none
  | _ => none

/-- The text of a value that is not made of others. -/
def toText? : Setting → Option String
  | text t => some t
  | bool b => some (if b then "true" else "false")
  | int i => some (toString i)
  | number x => some x.render
  | _ => none

/-- The texts of the items of a list. -/
def toTexts? : Setting → Option (List String)
  | list xs => xs.mapM toText?
  | _ => none

/-- The members of a record in the order of their names. A table holds them by name, a list by
place; what else they hold does not matter. -/
def members? (names : List String) : Setting → Option (List Setting)
  | table es => names.mapM fun name => find? name es
  | list xs => if xs.length < names.length then none else some (xs.take names.length)
  | _ => none

end Setting

end Mdx

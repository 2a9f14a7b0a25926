/-
A text of settings: statements, a line each, that assign values to keys and
begin tables. A text is read as a whole or not at all.
-/
import Mdx.Toml.Scalar
import Mdx.Toml.Table

namespace Mdx.Toml

open Reader

/-- A key and its value. -/
def pair (value : Reader Setting) : Reader (List String × Setting) := do
  let keys ← dottedKey
  literal "="
  pad
  return (keys, ← value)

/-- Values in brackets, with commas between them and perhaps one behind; they may be on several
lines. -/
def array (value : Reader Setting) : Reader Setting := do
  literal "["
  let items ← optional do
    let items ← separated (literal ",") (gap *> value <* gap)
    let _ ← optional (literal ",")
    return items
  gap
  literal "]"
  return .list (items.getD [])

/-- Keys and values in braces, with commas between them, on one line. -/
def inlineTable (value : Reader Setting) : Reader Setting := do
  literal "\x7b"
  let pairs ← optional (separated (literal ",") (pair value <* pad))
  pad
  literal "\x7d"
  let filled := (pairs.getD []).foldlM (fun entries (keys, v) => assign keys v .declared entries) []
  match filled with
  | some entries => return .table (settingsOf entries)
  | none => failure

/-- A value in which at most `nesting` others stand inside each other. -/
def value : (nesting : Nat) → Reader Setting
  | 0 => scalar
  | nesting + 1 => scalar <|> array (value nesting) <|> inlineTable (value nesting)

/-- A statement. -/
inductive Statement where
  | assignment (keys : List String) (value : Setting)
  | header (keys : List String)
  | arrayHeader (keys : List String)

/-- A statement with the rest of its line; a line may be without one. -/
def statement : Reader (Option Statement) :=
  (newline *> pure none) <|> (comment *> lineEnd *> pure none) <|>
    (do
      literal "[["
      let keys ← dottedKey
      literal "]]"
      restOfLine
      return some (.arrayHeader keys)) <|>
    (do
      literal "["
      let keys ← dottedKey
      literal "]"
      restOfLine
      return some (.header keys)) <|>
    (do
      let (keys, v) ← pair (value nestingLimit)
      restOfLine
      return some (.assignment keys v))

/-- The statements of a text; it may begin with a byte order mark. -/
def statements : Reader (List Statement) := do
  let _ ← optional (literal "\uFEFF")
  pad
  let found ← many (statement <* pad)
  atEnd
  return found.filterMap id

/-- Carries out a statement. `current` leads to the table that is being filled. -/
def Statement.apply (state : List String × Entries) (s : Statement) : Option (List String × Entries) :=
  let (current, root) := state
  match s with
  | assignment keys v => do return (current, ← alter .implied (assign keys v) current .declared root)
  | header keys => do return (keys, ← declare keys root)
  | arrayHeader keys => do return (keys, ← declareInArray keys root)

/-- The settings of a text. -/
def parse? (cs : List Char) : Option (List (String × Setting)) := do
  let (found, _) ← statements cs
  let (_, root) ← found.foldlM Statement.apply ([], [])
  return settingsOf root

end Mdx.Toml

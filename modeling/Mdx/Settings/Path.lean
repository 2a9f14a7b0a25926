/-
Paths to a setting, such as `compiler.check_js` or `compiler.extensions[0]`. A
value set at a path makes the tables and lists on the way to it.
-/
import Mdx.Settings.Value

namespace Mdx

/-- A step from a setting to one inside it. -/
inductive SettingStep where
  | key (name : String)
  /-- An index below zero counts from the end. -/
  | index (position : Int)
  deriving DecidableEq, Repr

/-- The way to a setting. -/
structure SettingPath where
  root : String
  steps : List SettingStep
  deriving DecidableEq, Repr

namespace SettingPath

/-- A character of a key in a path. -/
def isKeyChar (c : Char) : Bool := c.isAlphanum || c == ' ' || c == '_' || c == '-'

/-- A space or a tab. -/
def isPad (c : Char) : Bool := c == ' ' || c == '\t'

/-- Reads a key, which is not empty. -/
def readKey? (cs : List Char) : Option (String × List Char) :=
  match cs.takeWhile isKeyChar with
  | [] => none
  | key => some (String.ofList key, cs.dropWhile isKeyChar)

/-- Reads an index of 64 bits and the bracket behind it; blanks may be around the index. -/
def readIndex? (cs : List Char) : Option (Int × List Char) :=
  let cs := cs.dropWhile isPad
  let (negative, cs) := match cs with
    | '-' :: rest => (true, rest)
    | _ => (false, cs)
  let digits := cs.takeWhile Char.isDigit
  let magnitude := digits.foldl (fun n d => 10 * n + (d.toNat - '0'.toNat)) 0
  let limit := if negative then Nat.pow 2 63 else Nat.pow 2 63 - 1
  match (cs.dropWhile Char.isDigit).dropWhile isPad with
  | ']' :: rest =>
    if digits.isEmpty || limit < magnitude then none
    else some (if negative then -magnitude else magnitude, rest)
  | _ => none

/-- Reads the steps of a path to the end of the text. -/
def readSteps? : (fuel : Nat) → List Char → Option (List SettingStep)
  | _, [] => some []
  | 0, _ => none
  | fuel + 1, '.' :: cs => do
    let (name, rest) ← readKey? cs
    return .key name :: (← readSteps? fuel rest)
  | fuel + 1, '[' :: cs => do
    let (position, rest) ← readIndex? cs
    return .index position :: (← readSteps? fuel rest)
  | _ + 1, _ => none

/-- The path that a text stands for. -/
def ofText? (text : String) : Option SettingPath := do
  let (root, rest) ← readKey? text.toList
  return ⟨root, ← readSteps? rest.length rest⟩

/-- The path of one key. -/
def single (key : String) : SettingPath := ⟨key, []⟩

end SettingPath

namespace Setting

open Keyed (find? put)

/-- The place in a list of `length` items that an index stands for. -/
def place (position : Int) (length : Nat) : Nat :=
  if position < 0 then length - position.natAbs else position.natAbs

/-- The value with `change` made at the end of some steps. What is on the way becomes a table for a
key and a list for an index, with null for what was not there. -/
def alter (change : Setting → Setting) : List SettingStep → Setting → Setting
  | [], s => change s
  | .key name :: steps, s =>
    let key := keptKey name
    .table (put key (alter change steps ((find? key s.entries).getD .null)) s.entries)
  | .index position :: steps, s =>
    let n := place position s.items.length
    let padded := s.items ++ List.replicate (n + 1 - s.items.length) .null
    .list (padded.modify n (alter change steps))

/-- The entries with a value set at a path. -/
def set (path : SettingPath) (value : Setting) (entries : List (String × Setting)) :
    List (String × Setting) :=
  let root := keptKey path.root
  match path.steps with
  | [] => lay entries root value
  | steps => put root (alter (replacing value) steps ((find? root entries).getD .null)) entries

end Setting

end Mdx

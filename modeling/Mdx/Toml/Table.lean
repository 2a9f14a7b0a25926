/-
Tables as they are filled. A table may be named by a header, come about as part
of a header's name, or come about by a dotted key, and what may still be added
to it depends on that.
-/
import Mdx.Settings.Value

namespace Mdx.Toml

/-- How a table came about. -/
inductive Origin where
  /-- On the way to a table that a header names. -/
  | implied
  /-- On the way to a dotted key. -/
  | dotted
  /-- By its own header or as a value. -/
  | declared
  deriving DecidableEq, Repr

/-- What a key stands for while tables are filled. -/
inductive Item where
  | value (v : Setting)
  | table (origin : Origin) (entries : List (String × Item))
  /-- The tables of an array, the one being filled last. -/
  | tables (all : List (List (String × Item)))

/-- The entries of a table. -/
abbrev Entries : Type := List (String × Item)

open Keyed (find? put)

/-- Changes the table that some keys lead to. Tables that are missing on the way come about as
`fresh`, and an array leads to its last table. A dotted key does not lead into a table that was
declared. -/
def alter (fresh : Origin) (change : Origin → Entries → Option Entries) :
    List String → Origin → Entries → Option Entries
  | [], origin, entries => change origin entries
  | key :: keys, _, entries =>
    match find? key entries with
    | none => do
      return put key (.table fresh (← alter fresh change keys fresh [])) entries
    | some (.table origin inner) =>
      if fresh = .dotted ∧ origin = .declared then none
      else do return put key (.table origin (← alter fresh change keys origin inner)) entries
    | some (.tables all) => do
      let last ← all.getLast?
      return put key (.tables (all.dropLast ++ [← alter fresh change keys .declared last])) entries
    | some (.value _) => none

/-- Adds a value under a dotted key, which must be new. The table that it goes to is the one being
filled, or one that came about by dotted keys. -/
def assign (keys : List String) (v : Setting) (origin : Origin) (entries : Entries) : Option Entries := do
  let key ← keys.getLast?
  let way := keys.dropLast
  let add (origin : Origin) (entries : Entries) : Option Entries :=
    if decide (origin = .dotted) == way.isEmpty then none
    else if (find? key entries).isSome then none
    else some (put key (.value v) entries)
  alter .dotted add way origin entries

/-- Begins the table of a header, which is new or was only implied. -/
def declare (keys : List String) (root : Entries) : Option Entries := do
  let key ← keys.getLast?
  let begin (_ : Origin) (entries : Entries) : Option Entries :=
    match find? key entries with
    | none => some (put key (.table .declared []) entries)
    | some (.table .implied inner) => some (put key (.table .declared inner) entries)
    | some _ => none
  alter .implied begin keys.dropLast .declared root

/-- Begins a table at the end of the array of a header. -/
def declareInArray (keys : List String) (root : Entries) : Option Entries := do
  let key ← keys.getLast?
  let begin (_ : Origin) (entries : Entries) : Option Entries :=
    match find? key entries with
    | none => some (put key (.tables [[]]) entries)
    | some (.tables all) => some (put key (.tables (all ++ [[]])) entries)
    | some _ => none
  alter .implied begin keys.dropLast .declared root

mutual

/-- The value of an item. -/
def settingOf : Item → Setting
  | .value v => v
  | .table _ entries => .table (settingsOf entries)
  | .tables all => .list (settingTables all)

/-- The values of entries. -/
def settingsOf : List (String × Item) → List (String × Setting)
  | [] => []
  | (key, item) :: entries => (key, settingOf item) :: settingsOf entries

/-- The values of the tables of an array. -/
def settingTables : List (List (String × Item)) → List Setting
  | [] => []
  | entries :: all => .table (settingsOf entries) :: settingTables all

end

end Mdx.Toml

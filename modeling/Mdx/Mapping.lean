/-
Mappings between a document and a text generated from it. An entry says that a
run of bytes of the source stands unchanged in the generated text. Entries come
in the order of the generated text, and one that goes on where the one before
it stops, in both texts, is part of it.
-/
import Mdx.Text.Span

namespace Mdx

/-- `length` bytes at `source` stand at `generated`. -/
structure Entry where
  source : Nat
  generated : Nat
  length : Nat
  deriving DecidableEq, Repr, Inhabited

namespace Entry

/-- The bytes of the source. -/
def sourceSpan (e : Entry) : Span := .ofLength e.source e.length

/-- The bytes of the generated text. -/
def generatedSpan (e : Entry) : Span := .ofLength e.generated e.length

/-- `f` goes on where `e` stops, in both texts. -/
def continuedBy (e f : Entry) : Bool :=
  e.source + e.length == f.source && e.generated + e.length == f.generated

/-- The entry read from the generated text to the source. -/
def flip (e : Entry) : Entry := ⟨e.generated, e.source, e.length⟩

/-- An offset of the source as an offset of the generated text. -/
def shift (e : Entry) (offset : Nat) : Nat := e.generated + offset - e.source

end Entry

/-- Joins each entry with those that continue it. -/
def coalesce : List Entry → List Entry
  | [] => []
  | [e] => [e]
  | e :: f :: es =>
    if e.continuedBy f then coalesce (⟨e.source, e.generated, e.length + f.length⟩ :: es)
    else e :: coalesce (f :: es)
  termination_by es => es.length

/-- The entries of a generated text, in its order. -/
structure Mapping where
  entries : List Entry
  deriving DecidableEq, Repr, Inhabited

namespace Mapping

/-- The mapping of entries in the order of the generated text; empty ones say nothing. -/
def ofEntries (entries : List Entry) : Mapping := ⟨coalesce (entries.filter (0 < ·.length))⟩

/-- The mapping of a text of which nothing is copied. -/
def empty : Mapping := ⟨[]⟩

/-- The number of entries. -/
def size (m : Mapping) : Nat := m.entries.length

/-- The entries in the order of the source; those at one place stay in order. -/
def bySource (m : Mapping) : List Entry := m.entries.mergeSort fun a b => a.source ≤ b.source

/-- The image of a source offset: that by the last entry which starts at it or before it, if the
offset is inside that entry. A cursor may also stand right behind the entry. -/
def carry (cursor : Bool) (entries : List Entry) (offset : Nat) : Option Nat := do
  let e ← (entries.filter (·.source ≤ offset)).getLast?
  let stop := e.source + e.length
  if offset < stop || (cursor && offset == stop) then some (e.shift offset) else none

/-- The generated offset of a source byte. -/
def toGenerated (m : Mapping) (offset : Nat) : Option Nat := carry false m.bySource offset

/-- The source offset of a generated byte. -/
def toSource (m : Mapping) (offset : Nat) : Option Nat :=
  carry false (m.entries.map Entry.flip) offset

/-- The generated place of a cursor in the source. -/
def toGeneratedCursor (m : Mapping) (offset : Nat) : Option Nat := carry true m.bySource offset

/-- The source place of a cursor in the generated text. -/
def toSourceCursor (m : Mapping) (offset : Nat) : Option Nat :=
  carry true (m.entries.map Entry.flip) offset

/-- The image of a span whose first and last byte have images, in order; an empty span is a
cursor. -/
def carrySpan (byte place : Nat → Option Nat) (s : Span) : Option Span :=
  if s.isEmpty then (place s.start).map fun o => ⟨o, o⟩
  else do
    let first ← byte s.start
    let last ← byte (s.stop - 1)
    if first ≤ last then some ⟨first, last + 1⟩ else none

/-- The source span of a generated one. -/
def toSourceSpan (m : Mapping) (s : Span) : Option Span :=
  carrySpan m.toSource m.toSourceCursor s

/-- The generated span of a source one. -/
def toGeneratedSpan (m : Mapping) (s : Span) : Option Span :=
  carrySpan m.toGenerated m.toGeneratedCursor s

/-- The source bytes of the part of a generated span that an entry covers. -/
def coveredSource (s : Span) (e : Entry) : Option Span :=
  let start := max e.generated s.start
  let stop := min (e.generated + e.length) s.stop
  if start < stop then
    some ⟨e.source + (start - e.generated), e.source + (stop - e.generated)⟩
  else none

/-- The smallest span around both. -/
def hull (a b : Span) : Span := ⟨min a.start b.start, max a.stop b.stop⟩

/-- The smallest source span around all bytes of a generated span that have an image. -/
def toSourceEnclosing (m : Mapping) (s : Span) : Option Span :=
  if s.isEmpty then m.toSourceSpan s
  else
    match m.entries.filterMap (coveredSource s) with
    | [] => none
    | first :: rest => some (rest.foldl hull first)

end Mapping

end Mdx

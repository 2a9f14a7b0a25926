/-
Line and column positions of a text. Lines and columns count from zero. A line
ends at a line feed; a column counts bytes or, for editors, UTF-16 units.
-/
import Mdx.Text.Span

namespace Mdx

/-- A line and a column. -/
structure Position where
  line : Nat
  column : Nat
  deriving DecidableEq, Repr, Inhabited

namespace Position

/-- The order of places in a text. -/
def le (a b : Position) : Bool := a.line < b.line || (a.line == b.line && a.column ≤ b.column)

/-- A position as it is displayed. -/
def render (p : Position) : String := toString p.line ++ ":" ++ toString p.column

end Position

/-- The two positions of a span. -/
structure PositionRange where
  start : Position
  stop : Position
  deriving DecidableEq, Repr, Inhabited

namespace PositionRange

/-- A position between the two ends, or one of them. -/
def contains (r : PositionRange) (p : Position) : Bool := r.start.le p && p.le r.stop

/-- The range ends on a later line than it starts. -/
def isMultiline (r : PositionRange) : Bool := r.start.line < r.stop.line

/-- A range as it is displayed. -/
def render (r : PositionRange) : String := r.start.render ++ ".." ++ r.stop.render

end PositionRange

/-- The UTF-16 units of a character. -/
def utf16Size (c : Char) : Nat := if c.toNat < 0x10000 then 1 else 2

/-- The UTF-16 units of a text. -/
def utf16Length : List Char → Nat
  | [] => 0
  | c :: cs => utf16Size c + utf16Length cs

/-- The offsets at which lines start, the first line at `base`, in a text of which `base` bytes are
before the characters given. -/
def lineStartsFrom (base : Nat) : List Char → List Nat
  | [] => []
  | c :: cs =>
    let next := base + c.utf8Size
    if c == '\n' then next :: lineStartsFrom next cs else lineStartsFrom next cs

/-- The offsets at which the lines of a text start. -/
def lineStarts (cs : List Char) : List Nat := 0 :: lineStartsFrom 0 cs

/-- The number of lines; a text that ends in a line feed has an empty last line. -/
def lineCount (cs : List Char) : Nat := (lineStarts cs).length

/-- The offset at which a line starts, if there is such a line. -/
def lineStart? (cs : List Char) (line : Nat) : Option Nat := (lineStarts cs)[line]?

/-- The position `n` bytes behind `p`, with columns in bytes; the end of the text if there are
fewer bytes. -/
def bytePositionFrom (p : Position) : List Char → Nat → Position
  | _, 0 => p
  | [], _ => p
  | c :: cs, n =>
    if n < c.utf8Size then ⟨p.line, p.column + n⟩
    else if c == '\n' then bytePositionFrom ⟨p.line + 1, 0⟩ cs (n - c.utf8Size)
    else bytePositionFrom ⟨p.line, p.column + c.utf8Size⟩ cs (n - c.utf8Size)

/-- The position of an offset with columns in bytes. -/
def bytePosition (cs : List Char) (offset : Nat) : Position := bytePositionFrom ⟨0, 0⟩ cs offset

/-- The position `n` bytes behind `p`, with columns in UTF-16 units; an offset inside a character
stands for the start of that character. -/
def utf16PositionFrom (p : Position) : List Char → Nat → Position
  | _, 0 => p
  | [], _ => p
  | c :: cs, n =>
    if n < c.utf8Size then p
    else if c == '\n' then utf16PositionFrom ⟨p.line + 1, 0⟩ cs (n - c.utf8Size)
    else utf16PositionFrom ⟨p.line, p.column + utf16Size c⟩ cs (n - c.utf8Size)

/-- The position of an offset with columns in UTF-16 units. -/
def utf16Position (cs : List Char) (offset : Nat) : Position := utf16PositionFrom ⟨0, 0⟩ cs offset

/-- The bytes from the start of a line to the column of that many UTF-16 units. A column inside a
character stands for the end of that character, one past the line for the end of the line. -/
def columnBytes : List Char → Nat → Nat
  | _, 0 => 0
  | [], _ => 0
  | c :: cs, column =>
    if c == '\n' then 0 else c.utf8Size + columnBytes cs (column - utf16Size c)

/-- The bytes from here to a position, given relative to the line here. A line past the end stands
for the end of the text. -/
def positionBytes : List Char → (line column : Nat) → Nat
  | cs, 0, column => columnBytes cs column
  | [], _ + 1, _ => 0
  | c :: cs, line + 1, column =>
    c.utf8Size + if c == '\n' then positionBytes cs line column else positionBytes cs (line + 1) column

/-- The offset of a position whose column counts UTF-16 units. -/
def offsetOfUtf16 (cs : List Char) (p : Position) : Nat := positionBytes cs p.line p.column

/-- The positions of a span with columns in bytes. -/
def byteRange (cs : List Char) (s : Span) : PositionRange :=
  ⟨bytePosition cs s.start, bytePosition cs s.stop⟩

/-- The positions of a span with columns in UTF-16 units. -/
def utf16Range (cs : List Char) (s : Span) : PositionRange :=
  ⟨utf16Position cs s.start, utf16Position cs s.stop⟩

/-- The lines of a text without their line ends; a line end is a line feed and the one carriage
return before it, and the text after the last one is a line only if it is not empty. -/
def linesOf (cs : List Char) : List (List Char) :=
  go [] cs
where
  /-- The lines of a text, of whose first line `seen` is the part before, backwards. -/
  go (seen : List Char) : List Char → List (List Char)
    | [] => if seen.isEmpty then [] else [seen.reverse]
    | c :: cs =>
      if c == '\n' then
        (match seen with
          | '\r' :: before => before.reverse
          | _ => seen.reverse) :: go [] cs
      else go (c :: seen) cs

/-- A line number, right-aligned in three columns. -/
def padLineNumber (n : Nat) : String :=
  let digits := toString n
  String.ofList (List.replicate (3 - digits.length) ' ') ++ digits

/-- The lines around an offset, two before and two behind, numbered from one; the line of the
offset is marked. -/
def sourceContext (cs : List Char) (offset : Nat) : String :=
  let line := ((takeBytes cs offset).filter (· == '\n')).length
  let first := line - 2
  let shown := ((linesOf cs).take (line + 3)).drop first
  String.join <| (shown.zipIdx first).map fun (text, i) =>
    (if i == line then ">> " else "   ") ++ padLineNumber (i + 1) ++ " | " ++ String.ofList text ++ "\n"

end Mdx

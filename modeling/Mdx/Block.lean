/-
How the lines of a document start: fences, headings, breaks, tags and module
statements. Each test looks at a line from the first character behind its
indent on.
-/
import Mdx.Tag

namespace Mdx

/-- A fence that opens code or math. -/
structure Fence where
  marker : Char
  length : Nat
  deriving DecidableEq, Repr

/-- The run of a character at the start of a text. -/
def runLength (marker : Char) (cs : List Char) : Nat := (cs.takeWhile (· == marker)).length

/-- The fence at the cursor. Three backquotes or tildes open code, where a line of backquotes holds
none further on; with math on, two dollars open math. -/
def fenceAt? (math : Bool) (c : Cursor) : Option Fence :=
  let line := c.line
  let ticks := runLength '\x60' line
  let tildes := runLength '~' line
  let dollars := runLength '$' line
  if 3 ≤ ticks then
    if (line.drop ticks).contains '\x60' then none else some ⟨'\x60', ticks⟩
  else if 3 ≤ tildes then some ⟨'~', tildes⟩
  else if math && 2 ≤ dollars then some ⟨'$', dollars⟩
  else none

/-- A line closes a fence if it holds nothing but the marker, at least as often. -/
def Fence.closedBy (fence : Fence) (line : Cursor) : Bool :=
  let text := trimRight line.skipIndent.line
  fence.length ≤ text.length && text.all (· == fence.marker)

/-- The depth of the heading at the cursor: one to six hashes and a blank or the end of the line. -/
def headingDepth? (c : Cursor) : Option Nat :=
  let line := c.line
  let depth := runLength '#' line
  if 1 ≤ depth && depth ≤ 6 && (line.drop depth).head?.all isIndent then some depth else none

/-- A thematic break: three or more of one of the three markers, and nothing else but indent. -/
def isThematicBreak (c : Cursor) : Bool :=
  let text := trimRight c.line
  match text with
  | [] => false
  | marker :: _ =>
    (marker == '*' || marker == '-' || marker == '_') &&
      3 ≤ text.count marker && text.all fun ch => ch == marker || isIndent ch

/-- Whether the text at the cursor is a module keyword and not a longer word. -/
def startsModule (c : Cursor) : Bool :=
  ["import", "export"].any fun keyword =>
    c.startsWith keyword &&
      !(c.rest.drop keyword.length).head?.any fun ch => isAlphanumeric ch || ch == '_' || ch == '$'

/-- The tag at the cursor, if it ends its line, and the place behind it. A tag that cannot be read
is an error. -/
def flowTag? (c : Cursor) : Except ParseError (Option (Tag × Cursor)) :=
  if Tag.startsAt c then do
    let (tag, next) ← Tag.read c
    return if next.isLineBlank then some (tag, next) else none
  else .ok none

/-- Whether a line ends the container: a tag that closes it starts the line. -/
def closesContainer (container : Option Tag) (line : Cursor) : Bool :=
  let start := line.skipIndent
  match container with
  | none => false
  | some tag =>
    start.startsWith "</" &&
      match Tag.read start with
      | .ok (closing, _) => tag.closedBy closing
      | .error _ => false

/-- Whether a line ends the paragraph before it. -/
def interrupts (math : Bool) (container : Option Tag) (line : Cursor) : Bool :=
  let start := line.skipIndent
  start.isLineEnd || (container.isSome && start.startsWith "</") || (fenceAt? math start).isSome ||
    (headingDepth? start).isSome || isThematicBreak start ||
    match flowTag? start with
    | .ok (some _) => true
    | _ => false

/-- The last line of a paragraph whose text is known up to the cursor: the lines below join it until
one interrupts it. -/
def paragraphLast (math : Bool) (container : Option Tag) (c : Cursor) : Cursor :=
  (c.laterLines.takeWhile fun line => !interrupts math container line).getLast?.getD c

/-- The end of a paragraph whose text is known up to the cursor; the blanks before it are not part of
the paragraph. -/
def paragraphEnd (math : Bool) (container : Option Tag) (c : Cursor) : Cursor :=
  c.trimmedTo (paragraphLast math container c).lineEnd.offset

end Mdx

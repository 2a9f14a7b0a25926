/-
The prose view of a document, as a markdown analyzer reads it. Each run of
other content becomes one placeholder on each line where it shows, and is
dropped where it is blank. Every line end is kept, so a line of the view is the
same line of the document.

Prose in an element is often indented with it. A line that starts inside the
content of an element loses the indent that the lines of that content share, so
that markdown does not take it for code.
-/
import Mdx.Generated
import Mdx.RangeSet
import Mdx.Text.Blank

namespace Mdx.Prose

/-- What stands for content that is not prose. -/
def placeholder : String := "<!---->"

/-- The lines of a text, without the line feeds between them. -/
def splitLines : List Char → List (List Char)
  | [] => [[]]
  | c :: cs =>
    if c == '\n' then [] :: splitLines cs
    else
      match splitLines cs with
      | [] => [[c]]
      | line :: lines => (c :: line) :: lines

/-- The spaces and tabs at the start of a text. -/
def indentOf (cs : List Char) : Nat := (cs.takeWhile isIndent).length

/-- The least of the indents known. -/
def leastIndent (known : Option Nat) (indent : Nat) : Option Nat :=
  some (known.elim indent (min · indent))

/-- The indent that the lines of a content share: the column of its first line, if there is only
indent before it, and the indent of each later line that is not blank. -/
def baseIndent (source : List Char) (content : Span) : Nat :=
  let lead := ((takeBytes source content.start).reverse.takeWhile (· != '\n')).reverse
  let first := if lead.all isIndent then some lead.length else none
  let later := (splitLines (slice source content)).drop 1
  ((later.filter fun line => !line.all isBlank).map indentOf).foldl leastIndent first |>.getD 0

/-- The pieces of a line from `pos` to `stop`, where `spans` are not prose and up to `indent`
spaces and tabs are still to be dropped. The characters from `pos` on are `rest`. -/
def linePieces (indent pos stop : Nat) (rest : List Char) : List Span → List Piece
  | [] => (prosePieces indent pos stop rest).1
  | s :: spans =>
    let start := max pos s.start
    let next := min s.stop stop
    let (before, indent) := prosePieces indent pos start rest
    let hidden := takeBytes (dropBytes rest (start - pos)) (next - start)
    let later := dropBytes rest (next - pos)
    if hidden.all isBlank then before ++ linePieces indent next stop later spans
    else before ++ .literal placeholder.toList :: linePieces 0 next stop later spans
where
  /-- The prose from `pos` to `stop` without the indent that is dropped, and the indent that is
  still to be dropped behind it. -/
  prosePieces (indent pos stop : Nat) (rest : List Char) : List Piece × Nat :=
    let text := takeBytes rest (stop - pos)
    let strip := indentOf (text.take indent)
    if pos + strip < stop then ([.copied ⟨pos + strip, stop⟩], 0) else ([], indent - strip)

/-- The indent that a line drops: that of the last content that holds the start of the line. -/
def lineIndent (bases : List (Span × Nat)) (lineStart : Nat) : Nat :=
  ((bases.filter (·.1.contains lineStart)).getLast?.map (·.2)).getD 0

/-- The pieces of the lines from `offset` on. -/
def linesPieces (hidden : List Span) (bases : List (Span × Nat)) (offset : Nat) :
    List (List Char) → List Piece
  | [] => []
  | line :: lines =>
    let stop := offset + byteLength line
    let onLine := hidden.filter fun s => offset < s.stop && s.start < stop
    let pieces := linePieces (lineIndent bases offset) offset stop line onLine
    if lines.isEmpty then pieces
    else
      let newline :=
        if hidden.any (·.contains stop) then Piece.literal ['\n'] else .copied ⟨stop, stop + 1⟩
      pieces ++ newline :: linesPieces hidden bases (stop + 1) lines

/-- The pieces of the prose view, where `nonProse` is hidden and `content` are the contents of
elements. -/
def pieces (source : List Char) (nonProse content : RangeSet) : List Piece :=
  let bases := content.ranges.map fun s => (s, baseIndent source s)
  linesPieces nonProse.merged bases 0 (splitLines source)

/-- The prose view. -/
def view (source : List Char) (nonProse content : RangeSet) : GeneratedText :=
  .ofPieces source (pieces source nonProse content)

end Mdx.Prose

/-
Documents. A document is read line by line: each line is told by how it starts,
and each construct takes whole lines. A tag alone on its line opens a container
whose content is read the same way up to the line of its closing tag.
-/
import Mdx.Inline

namespace Mdx

/-- The lines of the module block at the cursor below its first one: those up to a blank line. -/
def moduleLines (c : Cursor) : List Cursor := c.laterLines.takeWhile fun line => !line.isLineBlank

/-- The last line of the module block at the cursor. -/
def moduleLast (c : Cursor) : Cursor := (moduleLines c).getLast?.getD c

/-- Where the statements of the module block at the cursor start and where each one ends at the
latest, if the block ends at `stop`. A keyword at the start of a line starts a statement. -/
def moduleParts (c : Cursor) (stop : Nat) : List (Cursor × Nat) :=
  let starts := c :: (moduleLines c).filter startsModule
  starts.zip ((starts.drop 1).map Cursor.offset ++ [stop])

/-- A module block at the cursor and the line behind it. -/
def readModule (c : Cursor) : Except ParseError (Node × Cursor) := do
  let stop := (c.trimmedTo (moduleLast c).lineEnd.offset).offset
  Script.checkBalanced c.offset (c.upTo stop)
  let statements := (moduleParts c stop).map fun (start, limit) =>
    Node.leaf .moduleStatement (start.spanTo (start.trimmedTo limit).offset)
  return (.branch .moduleBlock (c.spanTo stop) statements, (moduleLast c).nextLine)

/-- Where fenced content ends and the line behind it. The content runs to the closing fence, or to
the line that closes the container, or to the end of the document; without a closing fence it ends
at its last line that is not blank. -/
def fencedEnd (fence : Fence) (container : Option Tag) (stop : Nat) (next : Cursor) :
    List Cursor → Nat × Cursor
  | [] => (stop, next)
  | line :: lines =>
    if closesContainer container line then (stop, line)
    else if fence.closedBy line then (line.trimmedLineEnd.offset, line.nextLine)
    else
      fencedEnd fence container (if line.isLineBlank then stop else line.lineEnd.offset)
        line.nextLine lines

/-- The first word of a text. -/
def firstWord? (cs : List Char) : Option String :=
  match (trimLeft cs).takeWhile (!isBlank ·) with
  | [] => none
  | word => some (String.ofList word)

/-- Fenced code or math at the cursor and the line behind it. -/
def readFenced (fence : Fence) (container : Option Tag) (c : Cursor) : Node × Cursor :=
  let kind : NodeKind :=
    if fence.marker == '$' then .math else .code (firstWord? (c.line.drop fence.length))
  let (stop, next) :=
    fencedEnd fence container c.trimmedLineEnd.offset c.nextLine c.laterLines
  (.leaf kind (c.spanTo stop), next)

/-- The content of a heading without the hashes that may close it. -/
def headingContent (cs : List Char) : List Char :=
  let opened := trimRightBy (· == '#') cs
  if opened.getLast?.all isIndent then trimRight opened else cs

/-- The place behind the hashes of the heading at the cursor and the indent after them. -/
def headingStart (depth : Nat) (c : Cursor) : Cursor := (c.drop depth).skipIndent

/-- The place behind the content of the heading at the cursor. -/
def headingStop (depth : Nat) (c : Cursor) : Cursor :=
  let start := headingStart depth c
  start.drop (headingContent (start.upTo c.trimmedLineEnd.offset)).length

/-- A heading at the cursor and the line behind it. -/
def readHeading (math : Bool) (depth : Nat) (c : Cursor) : Except ParseError (Node × Cursor) := do
  let (nodes, _) ← inlineNodes math .heading (headingStart depth c) (headingStop depth c)
  return (.branch (.heading depth) (c.spanTo c.trimmedLineEnd.offset) nodes, c.nextLine)

/-- An expression at the cursor that ends its line, and the line behind it. -/
def readFlowExpression? (c : Cursor) : Except ParseError (Option (Node × Cursor)) :=
  if c.rest.head? == some '\x7b' then do
    let close ← Script.closingBrace c
    let next := close.place.drop 1
    if next.isLineBlank then
      let body := (c.drop 1).spanTo close.place.offset
      let node := Node.leaf (.blockExpression ⟨body, close.isEmpty⟩) (c.spanTo next.offset)
      return some (node, next.nextLine)
    else return none
  else .ok none

/-- A paragraph at the cursor and the line behind it. -/
def readParagraph (math : Bool) (container : Option Tag) (c : Cursor) :
    Except ParseError (Node × Cursor) := do
  let (nodes, stop) ← inlineNodes math (.paragraph container) c (paragraphEnd math container c)
  return (.branch .paragraph (c.spanTo stop.offset) nodes, stop.nextLine)

/-- What a line of a document opens. -/
inductive Opening where
  /-- A construct that was read whole, and the line behind it. -/
  | block (node : Node) (next : Cursor)
  /-- An element's tag, and the place behind it. -/
  | element (tag : Tag) (next : Cursor)

/-- What the line at `line` opens, whose first character behind the indent is at `start`. The tests
are made in this order; module statements stand only at the left margin outside all elements. -/
def openLine (math : Bool) (container : Option Tag) (line start : Cursor) :
    Except ParseError Opening := do
  if container.isNone && start.offset == line.offset && startsModule start then
    let (node, next) ← readModule start
    return .block node next
  else
    match fenceAt? math start with
    | some fence =>
      let (node, next) := readFenced fence container start
      return .block node next
    | none =>
      match headingDepth? start with
      | some depth =>
        let (node, next) ← readHeading math depth start
        return .block node next
      | none =>
        if isThematicBreak start then
          let stop := start.trimmedLineEnd.offset
          return .block (.leaf .thematicBreak (start.spanTo stop)) start.nextLine
        else
          match ← flowTag? start with
          | some (tag, next) => return .element tag next
          | none =>
            match ← readFlowExpression? start with
            | some (node, next) => return .block node next
            | none =>
              let (node, next) ← readParagraph math container start
              return .block node next

/-- The closing tag at the cursor, if it closes the container and ends its line, and the place
behind it. -/
def readClosing (container : Option Tag) (c : Cursor) : Except ParseError (Tag × Cursor) := do
  let (closing, next) ← Tag.read c
  match container with
  | none => throw ⟨.unexpectedClosingTag closing.display none, closing.span⟩
  | some tag =>
    if tag.closedBy closing then
      let after := next.skipWhile fun ch => isBlank ch && ch != '\n'
      if after.isLineEnd then return (closing, next)
      else throw ⟨.contentAfterClosingTag, after.charSpan⟩
    else throw ⟨.unexpectedClosingTag closing.display (some tag.display), closing.span⟩

/-- The end of the document inside a container or outside all of them. -/
def endOfFlow : Option Tag → Except ParseError (List Node × Option (Tag × Cursor))
  | none => .ok ([], none)
  | some tag =>
    .error ⟨.unclosedTag tag.display .document, ⟨tag.span.start, tag.span.start + 1⟩⟩

/-- A reader of the lines from `line` on: the nodes, and the tag that closed the container with the
place behind it. Outside all containers the lines run to the end of the document. -/
abbrev FlowReader : Type :=
  (container : Option Tag) → (line : Cursor) → Except ParseError (List Node × Option (Tag × Cursor))

/-- One round of reading lines: what the line at `line` opens is read here, the content of an element
and the lines behind it by `onward`. -/
def flowRound (math : Bool) (onward : FlowReader) : FlowReader := fun container line =>
  if line.rest.isEmpty then endOfFlow container
  else
    let start := line.skipIndent
    if start.isLineEnd then onward container line.nextLine
    else if start.startsWith "</" then do
      let closing ← readClosing container start
      return ([], some closing)
    else do
      let (node, next) ← match ← openLine math container line start with
        | .block node next => pure (node, next)
        | .element tag next =>
          if tag.selfClosing then
            pure (Node.leaf (.blockElement tag.element) tag.span, next.nextLine)
          else do
            let (nodes, closing) ← onward (some tag) next.nextLine
            let (stop, after) := match closing with
              | some (closing, after) => (closing.span.stop, after)
              | none => (tag.span.stop, next)
            pure (Node.branch (.blockElement tag.element) ⟨tag.span.start, stop⟩ nodes,
              after.nextLine)
      let (nodes, closing) ← onward container next
      return (node :: nodes, closing)

/-- Reads lines round by round. Each round moves on by a character at least, so `fuel` beyond the
characters left changes nothing. -/
def readFlow (math : Bool) : (fuel : Nat) → FlowReader
  | 0 => fun container _ => endOfFlow container
  | fuel + 1 => flowRound math (readFlow math fuel)

/-- The front matter at the start of a document, and the line behind it: a fence of one of the
dialects, and a second one below it. -/
def readFrontmatter? (dialects : List Dialect) (c : Cursor) : Option (Node × Cursor) := do
  let dialect ← dialects.find? (·.isFence c.line)
  let close ← c.laterLines.find? fun line => dialect.isFence line.line
  let start := c.nextLine.offset
  let value : Span := ⟨start, max (close.offset - 1) start⟩
  return (.leaf (.frontmatter dialect value) (c.spanTo close.trimmedLineEnd.offset), close.nextLine)

/-- The front matter at the start of a document, if there is any, and where the other lines start. -/
def readFront (dialects : List Dialect) (c : Cursor) : List Node × Cursor :=
  match readFrontmatter? dialects c with
  | some (node, next) => ([node], next)
  | none => ([], c)

/-- The tree of a document. -/
def parse (options : ParseOptions) (cs : List Char) : Except ParseError Node := do
  let (front, flow) := readFront options.dialects (Cursor.ofText cs)
  let (nodes, _) ← readFlow options.math (flow.rest.length + 1) none flow
  return .branch .root ⟨0, byteLength cs⟩ (front ++ nodes)

end Mdx

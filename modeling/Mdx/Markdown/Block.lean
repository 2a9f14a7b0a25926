/-
The block structure of markdown, as far as an outline needs it: headings,
fenced code and lists. Quotes and list items are containers; each line is first
matched against the containers that are open, then may open more, and what is
left of it starts a block.
-/
import Mdx.Markdown.Inline

namespace Mdx.Markdown

/-- A container that is open. -/
inductive Container where
  | quote
  /-- A list from `start` with one kind of mark; it is tight if no blank line is between its parts. -/
  | list (start : Nat) (mark : Char) (tight : Bool)
  /-- An item whose content is indented by some columns. -/
  | item (indent : Nat)

/-- A heading whose text is not resolved yet. -/
structure RawHeading where
  level : Nat
  span : Span
  content : Content

/-- What is known at a line. -/
structure Blocks where
  /-- The open containers, the innermost first. -/
  spine : List Container := []
  /-- Where the line below an item ends that has nothing on its first line. -/
  emptyItem : Option Nat := none
  lastBlank : Bool := false
  headings : List RawHeading := []
  /-- The spans of lists and fenced code. -/
  folds : List Span := []
  /-- The labels that are defined. -/
  defined : List (List Char) := []

/-- Matches a line against containers, the outermost first: how many go on, and the place behind
their marks. -/
def matchContainers : List Container → LineScan → Nat × LineScan
  | [], s => (0, s)
  | .quote :: cs, s =>
    match (s.takeColumns 3).2.quoteMarker? with
    | none => (0, s)
    | some inner =>
      let (n, last) := matchContainers cs inner
      (n + 1, last)
  | .list .. :: cs, s =>
    let (n, last) := matchContainers cs s
    (n + 1, last)
  | .item indent :: cs, s =>
    let (short, inner) := s.takeColumns indent
    if short = 0 || inner.isLineEnd then
      let (n, last) := matchContainers cs inner
      (n + 1, last)
    else (0, s)

namespace Blocks

/-- Matches a line against the open containers: whether all go on, and the place behind their
marks. -/
def matchLine (b : Blocks) (line : Cursor) : Bool × LineScan :=
  let (n, s) := matchContainers b.spine.reverse (.ofCursor line)
  (n == b.spine.length, s)

/-- Closes the innermost container. -/
def pop (b : Blocks) (stop : Nat) : Blocks :=
  match b.spine with
  | [] => b
  | .list start _ tight :: spine =>
    { b with spine, folds := b.folds ++ [⟨start, stop⟩],
             emptyItem := if tight then none else b.emptyItem }
  | _ :: spine => { b with spine }

/-- Closes the containers inside the outermost `n`. -/
def closeTo (b : Blocks) (n stop : Nat) : Blocks :=
  (List.range (b.spine.length - n)).foldl (fun b _ => b.pop stop) b

/-- Opens a container. -/
def enter (b : Blocks) (c : Container) : Blocks := { b with spine := c :: b.spine }

/-- Closes an item that had nothing on its first line and none on the next. -/
def finishEmptyItem (b : Blocks) : Blocks :=
  match b.emptyItem, b.spine with
  | some stop, .item _ :: _ => { (if b.lastBlank then b.pop stop else b) with emptyItem := none }
  | _, _ => { b with emptyItem := none }

/-- Takes back that the list around the innermost container is tight. -/
def loosen : List Container → List Container
  | c :: .list start mark _ :: spine => c :: .list start mark false :: spine
  | spine => spine

/-- Closes a list that no item goes on, because another block starts. -/
def finishList (b : Blocks) (stop : Nat) : Blocks :=
  let b := b.finishEmptyItem
  let b := match b.spine with
    | .list .. :: _ => b.pop stop
    | _ => b
  if b.lastBlank then { b with spine := loosen b.spine, lastBlank := false } else b

/-- Goes on with the list of a mark, or starts one. -/
def continueList (b : Blocks) (start : Nat) (mark : Char) : Blocks :=
  let b := b.finishEmptyItem
  let fresh (b : Blocks) : Blocks := { b.enter (.list start mark true) with lastBlank := false }
  match b.spine with
  | .list start' mark' tight :: spine =>
    if mark' == mark then
      { b with spine := .list start' mark' (tight && !b.lastBlank) :: spine, lastBlank := false }
    else fresh (b.finishList start)
  | [] => fresh b
  | _ => fresh (b.finishList start)

/-- A blank line. -/
def blankLine (b : Blocks) : Blocks :=
  match b.spine with
  | .quote :: _ => b
  | .item indent :: spine =>
    { b with spine := .item (if b.emptyItem.isSome then 0 else indent) :: spine, lastBlank := true }
  | _ => { b with lastBlank := true }

end Blocks

/-- What is left of a line when its containers are open: content of any kind, nothing but the next
line, or only text. -/
inductive LineRest where
  | content (s : LineScan)
  | nothing (next : Cursor)
  | text (place : Cursor)

/-- Opens the containers that start on a line which starts at `lineStart`. Behind the box of a task
there is only text. -/
def openContainers (lineStart : Nat) : (fuel : Nat) → Blocks → LineScan → Blocks × LineRest
  | 0, b, s => (b, .content s)
  | fuel + 1, b, s =>
    let (short, inner) := s.takeColumns 4
    let outer := 4 - short
    if short = 0 then (b, .content s)
    else
      match itemMarker? outer inner with
      | some m =>
        let b := (b.continueList (inner.place.offset - outer) m.mark).enter (.item m.indent)
        let box := taskBox? m.content
        let content := box.getD m.content
        match blankLine? content.place.rest with
        | some n =>
          let next := content.place.drop n
          ({ b with emptyItem := some next.offset }, .nothing next)
        | none =>
          if box.isSome then (b, .text content.skipAll.place)
          else openContainers lineStart fuel b content
      | none =>
        match inner.quoteMarker? with
        | some content => openContainers lineStart fuel ((b.finishList lineStart).enter .quote) content
        | none => (b, .content s)

/-- Whether a text starts a block where a paragraph or a table could go on. Inside the containers of
a paragraph a list can only start with an item that holds something, and with number one. -/
def startsBlock (inContainer inTable : Bool) (cs : List Char) : Bool :=
  let startsList :=
    match itemMarker? 0 (.ofCursor ⟨0, cs⟩) with
    | none => false
    | some m =>
      !inContainer || inTable || ((m.mark != '.' && m.mark != ')' || m.number == 1) &&
        (blankLine? m.content.place.rest).isNone)
  (lineBreak? cs).isSome || isRule cs || (hashLevel? cs).isSome || (codeFence? cs).isSome ||
    cs.head? == some '>' || startsList ||
    (cs.head? == some '<' && ((blockEnd? (cs.drop 1)).isSome || startsBlockTag (cs.drop 1)))

/-- The bars of a table row that have no backslash before them, each with the text behind it. -/
def bars (escaped : Bool) : List Char → List (List Char)
  | [] => []
  | c :: cs =>
    let later := bars (c == '\\') cs
    if c == '|' && !escaped then cs :: later else later

/-- The columns of a row: bars at its ends divide nothing. -/
def columnCount (line : List Char) : Nat :=
  let found := bars false line
  let leading := if (line.dropWhile isLineSpace).head? == some '|' then 1 else 0
  let trailing := if found.getLast?.any fun after => after.all isLineSpace then 1 else 0
  found.length + 1 - leading - trailing

/-- The columns of the line below the head of a table: cells of hyphens with colons for their
alignment. The last one has no bar behind it and may be empty or have no hyphen. -/
def delimiterCount? (cs : List Char) : Option Nat :=
  let (short, s) := (LineScan.ofCursor ⟨0, cs⟩).takeColumns 4
  let line := lineText s.place.rest
  let cells := cells [] (if line.head? == some '|' then line.drop 1 else line)
  let last := cells.getLastD []
  let isDelimiter := line.all fun c => c == ' ' || c == ':' || c == '-' || c == '|'
  if short != 0 && isDelimiter && line.contains '|' && line.contains '-' &&
      cells.dropLast.all (·.contains '-') then
    some (cells.dropLast.length + if last.all (· == ' ') then 0 else 1)
  else none
where
  /-- The parts of a row between its bars. -/
  cells (seen : List Char) : List Char → List (List Char)
    | [] => [seen.reverse]
    | c :: cs => if c == '|' then seen.reverse :: cells [] cs else cells (c :: seen) cs

/-- Whether a text starts with the head of a table and the line below it. -/
def startsTable (b : Blocks) (cs : List Char) : Bool :=
  let line := lineText cs
  let (inContainer, s) := b.matchLine ⟨0, cs.drop (wholeLine cs).length⟩
  !(bars false line).isEmpty && inContainer &&
    delimiterCount? s.place.rest == some (columnCount line)

/-- Whether a line ends the table above it: it starts another block, is not in its containers or has
no cell. -/
def endsTable (b : Blocks) (line : Cursor) : Bool :=
  let (inContainer, s) := b.matchLine line
  let cs := s.skipAll.place.rest
  !inContainer || startsBlock true true cs ||
    (blankLine? (if cs.head? == some '|' then cs.drop 1 else cs)).isSome

/-- Whether a text where a paragraph could go on starts another block. A table has to start with a
bar there. -/
def interruptsParagraph (b : Blocks) (inContainer : Bool) (cs : List Char) : Bool :=
  startsBlock inContainer false cs || (cs.head? == some '|' && startsTable b cs)

/-- How the text of a definition goes on in the next line. -/
def textLines (b : Blocks) : LineJoin := fun cs =>
  let (inContainer, s) := b.matchLine ⟨0, cs⟩
  let rest := s.place.rest
  if interruptsParagraph b inContainer rest || (inContainer && (underline? rest).isSome) then none
  else some (cs.length - rest.length)

/-- How the blanks between the parts of a definition go on in the next line. -/
def blankLines (b : Blocks) : LineJoin := fun cs =>
  let (inContainer, s) := b.matchLine ⟨0, cs⟩
  let (short, inner) := s.takeColumns 4
  let rest := inner.place.rest
  if short != 0 && (interruptsParagraph b inContainer rest || (underline? rest).isSome) then none
  else some (cs.length - rest.length)

/-- Reads a paragraph whose current line is at `line`; `above` are the lines before it, without the
marks of containers, and `quoted` the lengths of what is above the lines behind the mark of a quote.
A line of equals signs or hyphens below the paragraph makes it a heading, whose start is
`start`. -/
def readParagraph (b : Blocks) (start : Nat) (above : List Char) (quoted : List Nat)
    (line : Cursor) : List Cursor → Blocks × Cursor
  | [] => (b, nextLine line)
  | next :: later =>
    let (inContainer, s) := b.matchLine next
    let (short, inner) := s.takeColumns 4
    let marks := next.rest.take (next.rest.length - s.place.rest.length)
    let under := if short != 0 && inContainer then underline? inner.place.rest else none
    match under with
    | some (level, n) =>
      let after := inner.place.drop n
      let text := trimRightBy isLineSpace (above ++ lineText line.rest)
      let lefts := quoted.map (text.length + 1 - ·) ++ if marks.contains '>' then [0] else []
      let heading : RawHeading := ⟨level, ⟨start, after.offset⟩, { text, quoted := lefts }⟩
      ({ b with headings := b.headings ++ [heading] }, after)
    | none =>
      if (short != 0 && interruptsParagraph b inContainer inner.place.rest) ||
          inner.skipAll.isLineEnd then
        (b, next)
      else
        let above := above ++ wholeLine line.rest
        let quoted := if marks.contains '>' then quoted ++ [above.length] else quoted
        readParagraph b start above quoted s.place later

/-- Reads a table or a paragraph that starts at `place`. -/
def readText (b : Blocks) (place : Cursor) : Blocks × Cursor :=
  let later := laterLines place
  if startsTable b place.rest then
    match (later.drop 1).dropWhile fun line => !endsTable b line with
    | line :: _ => (b, line)
    | [] => (b, place.drop place.rest.length)
  else readParagraph b place.offset [] [] place later

/-- Reads the definitions at `place`, on a line that starts at `lineStart`, and the text behind them.
They are like the lines of a paragraph: what does not start another block goes on with them. Each
one takes a character at least, so `fuel` beyond the characters left changes nothing. -/
def readDefinitions : (fuel : Nat) → Blocks → (lineStart : Nat) → Cursor → Blocks × Cursor
  | 0, b, lineStart, place => readText (b.finishList lineStart) place
  | fuel + 1, b, lineStart, place =>
    match readDefinition? (textLines b) (blankLines b) place.rest with
    | none => readText (b.finishList lineStart) place
    | some (key, after) =>
      let b := { b with defined := key :: b.defined }
      let stop := place.drop (place.rest.length - after.length)
      let next := stop.drop ((blankLine? after).getD 0)
      let (inContainer, s) := b.matchLine next
      let (short, inner) := s.takeColumns 4
      if short != 0 && interruptsParagraph b inContainer inner.place.rest then
        (b.finishList lineStart, next)
      else readDefinitions fuel b next.offset inner.skipAll.place

/-- The line behind fenced code that is indented by `indent` columns, and where the code ends. -/
def fencedCodeEnd (b : Blocks) (indent : Nat) (mark : Char) (length : Nat) (last : Cursor) :
    List Cursor → Nat × Cursor
  | [] => (last.offset, last)
  | line :: lines =>
    let (inContainer, s) := b.matchLine line
    if !inContainer then (line.offset, line)
    else
      let inner := (s.takeColumns indent).2
      let (short, close) := inner.takeColumns (4 - indent)
      let closing := if short != 0 then closingFence? mark length close.place.rest else none
      match closing with
      | some n =>
        let stop := close.place.drop n
        (stop.offset, stop.drop ((blankLine? stop.rest).getD 0))
      | none => fencedCodeEnd b indent mark length line.nextLine lines

/-- The place behind a block of markup whose current line is at `line`. It ends with a line that
holds `close` or, if there is none, before a blank line. -/
def htmlEnd (b : Blocks) (close : Option String) (line : Cursor) : List Cursor → Cursor
  | [] => line.nextLine
  | next :: later =>
    let (inContainer, s) := b.matchLine next
    let (endsHere, endsBehind) := match close with
      | some text => ((skipThrough? text.toList line.line).isSome, s.place.rest.isEmpty)
      | none => (s.isLineEnd, (blankLine? s.place.rest).isSome)
    if !inContainer || endsHere then next
    else if endsBehind then s.place
    else htmlEnd b close s.place later

/-- The line behind indented code, and whether the last line of the code is blank. -/
def indentedCodeEnd (b : Blocks) (isBlank : Bool) (last : Cursor) : List Cursor → Bool × Cursor
  | [] => (isBlank, last)
  | line :: lines =>
    let (inContainer, s) := b.matchLine line
    let (short, inner) := s.takeColumns 4
    if !inContainer || (short != 0 && !inner.isLineEnd) || inner.place.rest.isEmpty then
      (isBlank, line)
    else indentedCodeEnd b (blankLine? inner.place.rest).isSome line.nextLine lines

/-- The content of a heading that hashes open, without the hashes that may close it. -/
def hashContent (line : List Char) : List Char :=
  let text := trimRightBy (· == ' ') line
  let opened := trimRightBy (· == '#') text
  if opened.isEmpty then []
  else if opened.getLast? == some ' ' then trimRightBy (· == ' ') opened
  else text

/-- A heading that hashes open at `place`. Blanks that are not spaces are its ending. -/
def hashHeading (level : Nat) (place : Cursor) : RawHeading :=
  let next := nextLine place
  let line := (lineText (place.rest.drop level)).dropWhile isLineSpace
  let content := hashContent line
  let length := (trimRightBy isLineSpace line).length
  { level, span := ⟨place.offset, next.offset⟩,
    content := { text := content.take length, ending := content.drop length } }

/-- The block that starts at `place`, behind `indent` columns of a line that starts at
`lineStart`. -/
def readLeaf (b : Blocks) (lineStart indent : Nat) (place : Cursor) : Blocks × Cursor :=
  let cs := place.rest
  let markup := if cs.head? == some '<' then
      match blockEnd? (cs.drop 1) with
      | some close => some (some close)
      | none => if startsBlockTag (cs.drop 1) || isTagLine (cs.drop 1) then some none else none
    else none
  let closed := b.finishList lineStart
  match markup with
  | some close => (closed, htmlEnd closed close place place.laterLines)
  | none =>
    if isRule cs then (closed, nextLine place)
    else
      match hashLevel? cs with
      | some level =>
        ({ closed with headings := closed.headings ++ [hashHeading level place] }, nextLine place)
      | none =>
        match codeFence? cs with
        | some (mark, length) =>
          let (stop, next) :=
            fencedCodeEnd closed indent mark length place.nextLine place.laterLines
          ({ closed with folds := closed.folds ++ [⟨place.offset, stop⟩] }, next)
        | none => readDefinitions cs.length b lineStart place

/-- Reads the block that starts on a line, and gives the place behind it. -/
def readBlock (b : Blocks) (line : Cursor) : Blocks × Cursor :=
  let (n, s) := matchContainers b.spine.reverse (.ofCursor line)
  let b := b.closeTo n line.offset
  match openContainers line.offset line.rest.length b s with
  | (b, .nothing next) => (b, next)
  | (b, .text place) => readText b place
  | (b, .content s) =>
    match blankLine? s.place.rest with
    | some n => (b.blankLine, s.place.drop n)
    | none =>
      let (short, inner) := s.takeColumns 4
      if short = 0 then
        let b := b.finishList line.offset
        let (isBlank, next) :=
          indentedCodeEnd b false inner.place.nextLine inner.place.laterLines
        ({ b with lastBlank := isBlank }, next)
      else readLeaf b line.offset (4 - short) inner.place

/-- Reads all blocks from a line on. Each one takes a character at least, so `fuel` beyond the
characters left changes nothing. -/
def readBlocks : (fuel : Nat) → Blocks → Cursor → Blocks
  | 0, b, _ => b
  | fuel + 1, b, line =>
    if line.rest.isEmpty then b.closeTo 0 line.offset
    else
      let (b, next) := readBlock b line
      readBlocks fuel b next

/-- A heading and its plain text. -/
structure Heading where
  level : Nat
  text : List Char
  span : Span
  deriving DecidableEq, Repr

/-- What an outline is made of: the headings in order, and the spans of lists and fenced code. -/
structure Structure where
  headings : List Heading
  folds : List Span

/-- The structure of a markdown text. -/
def Structure.ofText (cs : List Char) : Structure :=
  let b := readBlocks (cs.length + 1) {} (.ofText cs)
  ⟨b.headings.map fun h => ⟨h.level, h.content.plainText b.defined, h.span⟩, b.folds⟩

end Mdx.Markdown

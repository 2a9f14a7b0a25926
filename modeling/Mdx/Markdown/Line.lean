/-
Lines of markdown. A line ends with a line feed, a carriage return or both; only
in code and markup it takes a line feed. At its start, columns count: a tab
fills up to the next multiple of four, and may be used up in parts.
-/
import Mdx.Text.Cursor
import Mdx.Text.Letter

namespace Mdx.Markdown

/-- A blank inside a line. -/
def isLineSpace (c : Char) : Bool := c == ' ' || c == '\t' || c == '\x0b' || c == '\x0c'

/-- A character that ends a line. -/
def isLineBreak (c : Char) : Bool := c == '\n' || c == '\r'

/-- A blank of ASCII. -/
def isAsciiBlank (c : Char) : Bool := isLineSpace c || isLineBreak c

/-- The length of the line end at the start of a text; the end of the text is one. -/
def lineBreak? : List Char → Option Nat
  | [] => some 0
  | '\r' :: '\n' :: _ => some 2
  | c :: _ => if isLineBreak c then some 1 else none

/-- The length of the rest of a line that is blank, with its line end. -/
def blankLine? (cs : List Char) : Option Nat :=
  let blanks := (cs.takeWhile isLineSpace).length
  (lineBreak? (cs.drop blanks)).map (blanks + ·)

/-- The rest of the line at the start of a text, without its line end. -/
def lineText (cs : List Char) : List Char := cs.takeWhile (!isLineBreak ·)

/-- The line at the start of a text with its line end. -/
def wholeLine (cs : List Char) : List Char :=
  let length := (lineText cs).length
  cs.take (length + (lineBreak? (cs.drop length)).getD 0)

/-- The start of the next line. -/
def nextLine (c : Cursor) : Cursor := c.drop (wholeLine c.rest).length

/-- The starts of the lines of a text at `offset`; its first character starts a line if
`atStart`. -/
def lineStartsIn (atStart : Bool) (offset : Nat) : List Char → List Cursor
  | [] => []
  | ch :: rest =>
    let ends := ch == '\n' || (ch == '\r' && rest.head? != some '\n')
    let later := lineStartsIn ends (offset + ch.utf8Size) rest
    if atStart then ⟨offset, ch :: rest⟩ :: later else later

/-- The starts of the lines behind this one. -/
def laterLines (c : Cursor) : List Cursor := lineStartsIn false c.offset c.rest

/-- A place in the blanks at the start of a line. Columns are counted from `tabStart`, and
`pending` columns of the last tab are not used up yet. -/
structure LineScan where
  place : Cursor
  tabStart : Nat
  pending : Nat

namespace LineScan

/-- The start of a line. -/
def ofCursor (c : Cursor) : LineScan := ⟨c, c.offset, 0⟩

/-- Moves on by a character. -/
def step (s : LineScan) : LineScan := { s with place := s.place.drop 1 }

/-- Takes blanks of `n` columns; gives the columns that were missing. -/
def takeBlanks (s : LineScan) (n : Nat) : Nat × LineScan :=
  match n with
  | 0 => (0, s)
  | n + 1 =>
    match s.place.rest with
    | ' ' :: _ => s.step.takeBlanks n
    | '\t' :: _ =>
      let width := 4 - (s.place.offset - s.tabStart) % 4
      let next := s.place.drop 1
      if n + 1 < width then (0, ⟨next, next.offset, width - (n + 1)⟩)
      else takeBlanks ⟨next, next.offset, 0⟩ (n + 1 - width)
    | _ => (n + 1, s)
  termination_by n
  decreasing_by all_goals omega

/-- Takes `n` columns, those pending first; gives the columns that were missing. -/
def takeColumns (s : LineScan) (n : Nat) : Nat × LineScan :=
  let fromTab := min s.pending n
  takeBlanks { s with pending := s.pending - fromTab } (n - fromTab)

/-- The line ends here. -/
def isLineEnd (s : LineScan) : Bool := s.place.rest.head?.all isLineBreak

/-- The place behind all spaces and tabs. -/
def skipAll (s : LineScan) : LineScan := { s with place := s.place.skipIndent, pending := 0 }

/-- The place behind the mark of a quote and one column after it. -/
def quoteMarker? (s : LineScan) : Option LineScan :=
  if s.place.rest.head? == some '>' then some (s.step.takeColumns 1).2 else none

end LineScan

/-- A thematic break: three or more of one mark, and blanks, up to the end of the line. -/
def isRule (cs : List Char) : Bool :=
  let line := lineText cs
  match line with
  | [] => false
  | mark :: _ =>
    (mark == '*' || mark == '-' || mark == '_') && 3 ≤ line.count mark &&
      line.all fun c => c == mark || c == ' ' || c == '\t'

/-- The level of a heading that hashes open. -/
def hashLevel? (cs : List Char) : Option Nat :=
  let level := (cs.takeWhile (· == '#')).length
  if 1 ≤ level && level ≤ 6 && (cs.drop level).head?.all fun c => isLineSpace c || isLineBreak c then
    some level
  else none

/-- The mark of a code fence and its length. No backquote is behind a fence of backquotes. -/
def codeFence? (cs : List Char) : Option (Char × Nat) :=
  match cs with
  | [] => none
  | mark :: _ =>
    let length := (cs.takeWhile (· == mark)).length
    if (mark == '\x60' || mark == '~') && 3 ≤ length &&
        !(mark == '\x60' && ((cs.drop length).takeWhile (· != '\n')).contains '\x60') then
      some (mark, length)
    else none

/-- The length of a line that closes a code fence, without its line end. -/
def closingFence? (mark : Char) (length : Nat) (cs : List Char) : Option Nat :=
  let marks := (cs.takeWhile (· == mark)).length
  let spaces := ((cs.drop marks).takeWhile (· == ' ')).length
  if cs.isEmpty then some 0
  else if length ≤ marks && (lineBreak? (cs.drop (marks + spaces))).isSome then some (marks + spaces)
  else none

/-- The level and the length of the line that makes the paragraph above it a heading. -/
def underline? (cs : List Char) : Option (Nat × Nat) :=
  match cs with
  | [] => none
  | mark :: _ =>
    if mark == '=' || mark == '-' then
      let marks := (cs.takeWhile (· == mark)).length
      (blankLine? (cs.drop marks)).map fun n => (if mark == '=' then 1 else 2, marks + n)
    else none

/-- The mark of a list item: the character that tells its list, its number, the columns its content
is indented by, and the place of the content. -/
structure ItemMarker where
  mark : Char
  number : Nat
  indent : Nat
  content : LineScan

/-- The content of an item behind its mark. Up to four blanks belong to the mark. -/
def finishMarker (mark : Char) (number indent : Nat) (s : LineScan) : ItemMarker :=
  if (blankLine? s.place.rest).isSome then ⟨mark, number, indent, s⟩
  else
    let (short, content) := s.takeColumns 4
    if short = 0 then ⟨mark, number, indent, s⟩ else ⟨mark, number, indent + (4 - short), content⟩

/-- The mark of a list item behind `indent` columns: a bullet, or up to nine digits and a point or
a parenthesis, and a blank or the end of the line. -/
def itemMarker? (indent : Nat) (s : LineScan) : Option ItemMarker :=
  let rest := s.place.rest
  let digits := rest.takeWhile Char.isDigit
  let width := digits.length + 1
  match rest.drop digits.length with
  | [] => none
  | mark :: _ =>
    let isMarker :=
      if digits.isEmpty then (mark == '-' || mark == '+' || mark == '*') && !isRule rest
      else (mark == '.' || mark == ')') && digits.length ≤ 9
    let (short, after) := { s with place := s.place.drop width }.takeColumns 1
    if isMarker && (short = 0 || after.isLineEnd) then
      let number := digits.foldl (fun n c => n * 10 + (c.toNat - 48)) 0
      some (finishMarker mark number (indent + width + 1) after)
    else none

/-- The place behind the box of a task, if there is one and a blank or the end of the line follows
it. -/
def taskBox? (s : LineScan) : Option LineScan :=
  let box := (s.takeColumns 3).2
  match box.place.rest with
  | '[' :: c :: ']' :: d :: _ =>
    if (isLineSpace c || c == 'x' || c == 'X') && isAsciiBlank d then
      some { box with place := box.place.drop 3 }
    else none
  | _ => none

end Mdx.Markdown

/-
A cursor is a place in a text: the bytes before it and the characters after it.
Cursors move only over whole characters, so each one reached from the start of
a text stands on a character boundary.
-/
import Mdx.Text.Blank
import Mdx.Text.Span

namespace Mdx

/-- A place in a text, `offset` bytes from its start and before the characters `rest`. -/
structure Cursor where
  offset : Nat
  rest : List Char
  deriving DecidableEq, Repr

namespace Cursor

/-- The start of a text. -/
def ofText (cs : List Char) : Cursor := ⟨0, cs⟩

/-- The place `n` bytes into a text. -/
def atOffset (cs : List Char) (n : Nat) : Cursor := ⟨n, dropBytes cs n⟩

/-- The place `n` characters on, or the end of the text. -/
def drop (c : Cursor) : Nat → Cursor
  | 0 => c
  | n + 1 =>
    match c.rest with
    | [] => c
    | ch :: rest => drop ⟨c.offset + ch.utf8Size, rest⟩ n

/-- The place behind the longest run of characters of `p`. -/
def skipWhile (c : Cursor) (p : Char → Bool) : Cursor := c.drop (c.rest.takeWhile p).length

/-- The place behind the blanks, line ends among them. -/
def skipBlanks (c : Cursor) : Cursor := c.skipWhile isBlank

/-- The place behind the spaces and tabs. -/
def skipIndent (c : Cursor) : Cursor := c.skipWhile isIndent

/-- The characters up to the end of the line. -/
def line (c : Cursor) : List Char := c.rest.takeWhile (· != '\n')

/-- The end of the line: before its line feed, or the end of the text. -/
def lineEnd (c : Cursor) : Cursor := c.skipWhile (· != '\n')

/-- The start of the next line, or the end of the text. -/
def nextLine (c : Cursor) : Cursor := c.lineEnd.drop 1

/-- Only blanks are left on the line. -/
def isLineBlank (c : Cursor) : Bool := c.line.all isBlank

/-- Nothing is left on the line. -/
def isLineEnd (c : Cursor) : Bool := c.line.isEmpty

/-- The text goes on with `text`. -/
def startsWith (c : Cursor) (text : String) : Bool := text.toList.isPrefixOf c.rest

/-- The characters up to the offset `stop`. -/
def upTo (c : Cursor) (stop : Nat) : List Char := takeBytes c.rest (stop - c.offset)

/-- The place behind the last character before `stop` that is not blank, or this place. -/
def trimmedTo (c : Cursor) (stop : Nat) : Cursor := c.drop (trimRight (c.upTo stop)).length

/-- The end of the line without the blanks before it. -/
def trimmedLineEnd (c : Cursor) : Cursor := c.drop (trimRight c.line).length

/-- The span from here to the offset `stop`. -/
def spanTo (c : Cursor) (stop : Nat) : Span := ⟨c.offset, stop⟩

/-- The span of the character here; it is empty at the end of the text. -/
def charSpan (c : Cursor) : Span := ⟨c.offset, c.offset + (c.rest.head?.map Char.utf8Size).getD 0⟩

/-- The span of the one byte here. -/
def byteSpan (c : Cursor) : Span := ⟨c.offset, c.offset + 1⟩

/-- The starts of the lines of a text at `offset`; its first character starts a line if `atStart`. -/
def lineStartsIn (atStart : Bool) (offset : Nat) : List Char → List Cursor
  | [] => []
  | ch :: rest =>
    let later := lineStartsIn (ch == '\n') (offset + ch.utf8Size) rest
    if atStart then ⟨offset, ch :: rest⟩ :: later else later

/-- The starts of the lines from this place on. -/
def lines (c : Cursor) : List Cursor := lineStartsIn true c.offset c.rest

/-- The starts of the lines behind this one; an empty last line is none. -/
def laterLines (c : Cursor) : List Cursor := lineStartsIn false c.offset c.rest

@[simp] theorem drop_zero (c : Cursor) : c.drop 0 = c := by cases c; rfl

/-- Moving on drops characters and counts their bytes. -/
theorem rest_drop (c : Cursor) (n : Nat) : (c.drop n).rest = c.rest.drop n := by
  induction n generalizing c with
  | zero => simp
  | succ n ih =>
    unfold drop
    split
    · next h => simp [h]
    · next h => simp [ih, h]

theorem offset_drop (c : Cursor) (n : Nat) :
    (c.drop n).offset = c.offset + byteLength (c.rest.take n) := by
  induction n generalizing c with
  | zero => simp [byteLength]
  | succ n ih =>
    unfold drop
    split
    · next h => simp [h, byteLength]
    · next h => simp [ih, h, byteLength, Nat.add_assoc]

end Cursor

end Mdx

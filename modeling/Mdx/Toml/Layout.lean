/-
What stands between the statements of settings text and between their parts:
blanks, ends of lines and comments.
-/
import Mdx.Text.Reader

namespace Mdx.Toml

/-- A space or a tab. -/
def isPad (c : Char) : Bool := c == ' ' || c == '\t'

/-- A character that may stand in a comment: a tab or no control character. -/
def isPrintable (c : Char) : Bool := c == '\t' || (0x20 ≤ c.toNat && c.toNat != 0x7F)

/-- Spaces and tabs. -/
def pad : Reader Unit := do let _ ← Reader.run isPad

/-- The end of a line, with a carriage return or without. -/
def newline : Reader Unit := Reader.literal "\n" <|> Reader.literal "\r\n"

/-- The end of a line or of the text. -/
def lineEnd : Reader Unit := newline <|> Reader.atEnd

/-- A comment up to the end of its line. -/
def comment : Reader Unit := do
  Reader.literal "#"
  let _ ← Reader.run isPrintable

/-- What may stand behind a statement on its line, and the end of the line. -/
def restOfLine : Reader Unit := do
  pad
  let _ ← optional comment
  lineEnd

/-- Blanks, comments and ends of lines. -/
def gap : Reader Unit := do
  let blank : Reader Unit := (do let _ ← Reader.one isPad) <|> newline <|> (comment *> newline)
  let _ ← Reader.many blank

end Mdx.Toml

/-
Quoted texts and keys. A text is quoted by one or three quotation marks, with
escapes, or by one or three apostrophes, without.
-/
import Mdx.Text.Digits
import Mdx.Toml.Layout

namespace Mdx.Toml

open Reader

/-- A character that is escaped by the number of its code point in `width` digits. -/
def codePoint (width : Nat) : Reader Char := do
  let n := valueOf 16 (← exactly width isHexDigit)
  if n.isValidChar then return Char.ofNat n else failure

/-- The character that a backslash and what follows it stand for. -/
def escape : Reader Char := do
  literal "\\"
  match ← one fun _ => true with
  | 'b' => return '\x08'
  | 't' => return '\t'
  | 'n' => return '\n'
  | 'f' => return '\x0c'
  | 'r' => return '\r'
  | '\x22' => return '\x22'
  | '\\' => return '\\'
  | 'u' => codePoint 4
  | 'U' => codePoint 8
  | _ => failure

/-- A character that stands for itself between quotation marks. -/
def isPlain (c : Char) : Bool := isPrintable c && c != '\x22' && c != '\\'

/-- A character that stands for itself between apostrophes. -/
def isRaw (c : Char) : Bool := isPrintable c && c != '\x27'

/-- A text on one line between quotation marks. -/
def quoted : Reader (List Char) := do
  literal "\""
  let cs ← many (one isPlain <|> escape)
  literal "\""
  return cs

/-- A text on one line between apostrophes. -/
def apostrophized : Reader (List Char) := do
  literal "'"
  let cs ← run isRaw
  literal "'"
  return cs

/-- One or two quotes of a text that ends with three. -/
def innerQuotes (quote : Char) : Reader (List Char) := fun cs =>
  let n := (cs.takeWhile (· == quote)).length
  if 0 < n && n < 3 then some (cs.splitAt n) else none

/-- Three quotes that end a text, and up to two before them that belong to it. -/
def closingQuotes (quote : Char) : Reader (List Char) := fun cs =>
  let n := min 5 (cs.takeWhile (· == quote)).length
  if n < 3 then none else some (cs.take (n - 3), cs.drop n)

/-- A text of several lines in three quotes. A line end right behind the first three is not part of
it. -/
def multiline (quote : Char) (piece : Reader (List Char)) : Reader (List Char) := do
  let _ ← exactly 3 (· == quote)
  let _ ← optional newline
  let pieces ← many (piece <|> (newline *> pure ['\n']) <|> innerQuotes quote)
  return pieces.flatten ++ (← closingQuotes quote)

/-- A backslash at the end of a line, which joins it to the next text. -/
def joinedLines : Reader Unit := do
  literal "\\"
  pad
  newline
  let _ ← many ((do let _ ← one isPad) <|> newline)

/-- A quoted text. -/
def quotedText : Reader (List Char) :=
  multiline '\x22'
      ((do return [← one isPlain]) <|> (joinedLines *> pure []) <|> (do return [← escape])) <|>
    quoted <|> multiline '\x27' (do return [← one isRaw]) <|> apostrophized

/-- A character of a key without quotes. -/
def isBareKeyChar (c : Char) : Bool := c.isAlphanum || c == '_' || c == '-'

/-- One key. -/
def simpleKey : Reader String := do
  let bare : Reader (List Char) := do return (← one isBareKeyChar) :: (← run isBareKeyChar)
  return String.ofList (← quoted <|> apostrophized <|> bare)

/-- The number of tables that may stand inside each other. -/
def nestingLimit : Nat := 79

/-- Keys with points between them, and blanks around each. -/
def dottedKey : Reader (List String) := do
  let keys ← separated (literal ".") (pad *> simpleKey <* pad)
  if nestingLimit < keys.length then failure else return keys

end Mdx.Toml

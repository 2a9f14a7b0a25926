/-
The text of the values that an editor sends. A number with a point or an
exponent is of double precision: its digits are read as one such number, as far
as they fit into 64 bits, and that is multiplied or divided by a power of ten.
-/
import Mdx.Editor.Json
import Mdx.Text.Digits
import Mdx.Text.Reader

namespace Mdx.JsonText

open Reader

/-- The exact value of a finite number, sign apart. -/
def fractionOf : Number → Nat × Nat
  | .finite _ significand exponent => Number.scaled 2 significand 1 (-exponent)
  | _ => (0, 1)

/-- Ten to the power `n`, as a number. -/
def tenTo (n : Nat) : Number := .ofDecimal false 1 n

/-- The number nearest to a product. -/
def times (x y : Number) : Number :=
  let (a, b) := fractionOf x
  let (c, d) := fractionOf y
  .ofFraction false (a * c) (b * d)

/-- The number nearest to a quotient. -/
def dividedBy (x y : Number) : Number :=
  let (a, b) := fractionOf x
  let (c, d) := fractionOf y
  .ofFraction false (a * d) (b * c)

/-- A number scaled by `10 ^ exponent`, in steps of at most 308 places. -/
def scaleByTen (x : Number) (exponent : Int) : Number :=
  if 0 ≤ exponent then times x (tenTo exponent.natAbs)
  else
    let places := exponent.natAbs
    let x := (List.range (min 2 ((places - 1) / 308))).foldl (fun x _ => dividedBy x (tenTo 308)) x
    dividedBy x (tenTo (places - 308 * min 2 ((places - 1) / 308)))

/-- The number of 64 bits that a run of digits makes behind others, and how many digits are left
over. -/
def addDigits (n : Nat) : List Char → Nat × Nat
  | [] => (n, 0)
  | d :: ds =>
    let next := 10 * n + digitValue d
    if next < Nat.pow 2 64 then addDigits next ds else (n, ds.length + 1)

/-- A number of double precision from its digits before and behind the point, and its exponent. -/
def numberOf (negative : Bool) (whole places : List Char) (exponent : Int) : Number :=
  let (n, dropped) := addDigits 0 whole
  let (n, unread) := addDigits n places
  let exponent := exponent + dropped - (places.length - unread : Nat)
  match scaleByTen (.ofDecimal false n 0) exponent with
  | .finite _ significand exponent => .finite negative significand exponent
  | x => x

/-- The digits of a whole number without needless zeros. -/
def wholeDigits : Reader (List Char) :=
  (do literal "0"; return ['0']) <|> do
    return (← one fun c => c.isDigit && c != '0') :: (← run Char.isDigit)

/-- An exponent. -/
def exponent : Reader Int := do
  let _ ← one fun c => c == 'e' || c == 'E'
  let sign ← optional (one fun c => c == '+' || c == '-')
  let digits := (← one Char.isDigit) :: (← run Char.isDigit)
  let n : Int := valueOf 10 digits
  return if sign == some '-' then -n else n

/-- A number. A whole one whose digits fit into 64 bits is an integer, but minus zero is not. -/
def number : Reader JsonValue := do
  let negative := (← optional (literal "-")).isSome
  let whole ← wholeDigits
  let places ← optional do
    literal "."
    return (← one Char.isDigit) :: (← run Char.isDigit)
  let power ← optional exponent
  let n : Nat := valueOf 10 whole
  if places.isNone && power.isNone && n < Nat.pow 2 64 && !(negative && n = 0) then
    return .int (if negative then -n else n)
  else return .number (numberOf negative whole (places.getD []) (power.getD 0))

/-- A unit of 16 bits in four digits. -/
def unit16 : Reader Nat := do
  literal "\\u"
  return valueOf 16 (← exactly 4 isHexDigit)

/-- A character by its unit, or by two units if it takes so many. -/
def unitChar : Reader Char := do
  let n ← unit16
  if 0xD800 ≤ n && n < 0xDC00 then
    let m ← unit16
    if 0xDC00 ≤ m && m < 0xE000 then
      return Char.ofNat (0x10000 + 0x400 * (n - 0xD800) + (m - 0xDC00))
    else failure
  else if 0xDC00 ≤ n && n < 0xE000 then failure
  else return Char.ofNat n

/-- A character that a backslash and another one stand for. -/
def escape : Reader Char := do
  literal "\\"
  match ← one fun _ => true with
  | 'b' => return '\x08'
  | 't' => return '\t'
  | 'n' => return '\n'
  | 'f' => return '\x0c'
  | 'r' => return '\r'
  | '\x22' => return '\x22'
  | '/' => return '/'
  | '\\' => return '\\'
  | _ => failure

/-- A text in quotation marks. -/
def quoted : Reader String := do
  literal "\""
  let cs ← many ((one fun c => 0x20 ≤ c.toNat && c != '\x22' && c != '\\') <|> unitChar <|> escape)
  literal "\""
  return String.ofList cs

/-- Blanks between the parts of a value. -/
def blanks : Reader Unit := do
  let _ ← run fun c => c == ' ' || c == '\t' || c == '\n' || c == '\r'

/-- A value that is not made of others. -/
def scalar : Reader JsonValue :=
  (do literal "null"; return .null) <|> (do literal "true"; return .bool true) <|>
    (do literal "false"; return .bool false) <|> number <|> (do return .text (← quoted))

/-- Items in brackets with commas between them. -/
def arrayOf (value : Reader JsonValue) : Reader JsonValue := do
  literal "["
  blanks
  let items ← optional (separated (literal "," *> blanks) (value <* blanks))
  literal "]"
  return .array (items.getD [])

/-- Members in the order of their names; of two by one name the later counts. -/
def putMember (name : String) (value : JsonValue) :
    List (String × JsonValue) → List (String × JsonValue)
  | [] => [(name, value)]
  | (other, v) :: members =>
    if name < other then (name, value) :: (other, v) :: members
    else if name = other then (name, value) :: members
    else (other, v) :: putMember name value members

/-- Members in braces with commas between them. -/
def objectOf (value : Reader JsonValue) : Reader JsonValue := do
  let member : Reader (String × JsonValue) := do
    let name ← quoted
    blanks
    literal ":"
    blanks
    return (name, ← value <* blanks)
  literal "\x7b"
  blanks
  let members ← optional (separated (literal "," *> blanks) member)
  literal "\x7d"
  return .object ((members.getD []).foldl (fun ms (name, v) => putMember name v ms) [])

/-- A value in which at most `nesting` others stand inside each other. -/
def valueIn : (nesting : Nat) → Reader JsonValue
  | 0 => scalar
  | nesting + 1 => scalar <|> arrayOf (valueIn nesting) <|> objectOf (valueIn nesting)

end Mdx.JsonText

/-- The value that a text stands for. -/
def Mdx.JsonValue.ofText? (text : String) : Option Mdx.JsonValue :=
  let cs := text.toList
  (do
    JsonText.blanks
    let value ← JsonText.valueIn cs.length
    JsonText.blanks
    Reader.atEnd
    return value : Reader JsonValue).run' cs

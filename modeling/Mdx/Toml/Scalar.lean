/-
Truth values, numbers and dates. A date is a text in its usual form.
-/
import Mdx.Settings.Value
import Mdx.Toml.Text

namespace Mdx.Toml

open Reader

/-- Digits of `p`, with at most one underscore between two of them. -/
def digits (p : Char → Bool) : Reader (List Char) := do
  return (← one p) :: (← many (one p <|> (literal "_" *> one p)))

/-- The digits of a whole number without needless zeros. -/
def wholeDigits : Reader (List Char) := (do literal "0"; return ['0']) <|> digits Char.isDigit

/-- A sign; `true` for minus. -/
def sign : Reader Bool := do
  let found ← optional (one fun c => c == '+' || c == '-')
  return found == some '-'

/-- An integer of 64 bits, or nothing. -/
def wordOf (negative : Bool) (magnitude : Nat) : Reader Setting :=
  if magnitude < Nat.pow 2 63 || (negative && magnitude == Nat.pow 2 63) then
    return .int (if negative then -magnitude else magnitude)
  else failure

/-- An integer in base sixteen, eight or two. -/
def basedInteger : Reader Setting := do
  let based (mark : String) (base : Nat) (p : Char → Bool) : Reader Nat := do
    literal mark
    return valueOf base (← digits p)
  let octal (c : Char) : Bool := '0' ≤ c && c ≤ '7'
  wordOf false (← based "0x" 16 isHexDigit <|> based "0o" 8 octal <|>
    based "0b" 2 fun c => c == '0' || c == '1')

/-- An integer. -/
def integer : Reader Setting :=
  basedInteger <|> do
    let negative ← sign
    wordOf negative (valueOf 10 (← wholeDigits))

/-- The exponent of a number. -/
def exponent : Reader Int := do
  let _ ← one fun c => c == 'e' || c == 'E'
  let negative ← sign
  let n := valueOf 10 (← digits Char.isDigit)
  return if negative then -n else n

/-- A number with a fraction, an exponent or both. One beyond all bounds is not read, if it is not
below zero. -/
def decimal : Reader Setting := do
  let negative ← sign
  let whole ← wholeDigits
  let fraction ← optional (literal "." *> digits Char.isDigit)
  let power ← match fraction with
    | none => some <$> exponent
    | some _ => optional exponent
  let places := fraction.getD []
  let x := Number.ofDecimal negative (valueOf 10 (whole ++ places)) (power.getD 0 - places.length)
  if x = .infinite false then failure else return .number x

/-- A number that is not finite. -/
def special : Reader Setting := do
  let negative ← sign
  (do literal "inf"; return .number (.infinite negative)) <|>
    (do literal "nan"; return .number .undefined)

/-- A number in two or four digits within bounds. -/
def calendarNumber (width least most : Nat) : Reader Nat := do
  let n := valueOf 10 (← exactly width Char.isDigit)
  if least ≤ n && n ≤ most then return n else failure

/-- The digits of a number, at least `width` of them. -/
def padNumber (width n : Nat) : List Char :=
  let ds := Nat.toDigits 10 n
  List.replicate (width - ds.length) '0' ++ ds

/-- The days of a month. -/
def daysIn (year month : Nat) : Nat :=
  if month == 2 then
    if year % 4 == 0 && (year % 100 != 0 || year % 400 == 0) then 29 else 28
  else if month ∈ [4, 6, 9, 11] then 30
  else 31

/-- A day of the calendar. -/
def date : Reader (List Char) := do
  let year ← calendarNumber 4 0 9999
  literal "-"
  let month ← calendarNumber 2 1 12
  literal "-"
  let day ← calendarNumber 2 1 (daysIn year month)
  return padNumber 4 year ++ '-' :: padNumber 2 month ++ '-' :: padNumber 2 day

/-- A time of day, down to billionths of a second. -/
def time : Reader (List Char) := do
  let hour ← calendarNumber 2 0 23
  literal ":"
  let minute ← calendarNumber 2 0 59
  literal ":"
  let second ← calendarNumber 2 0 60
  let fraction ← optional (do literal "."; return (← one Char.isDigit) :: (← run Char.isDigit))
  let places := (((fraction.getD []).take 9).reverse.dropWhile (· == '0')).reverse
  return padNumber 2 hour ++ ':' :: padNumber 2 minute ++ ':' :: padNumber 2 second ++
    if places.isEmpty then [] else '.' :: places

/-- The distance of a time from universal time. -/
def offset : Reader (List Char) :=
  (do let _ ← one fun c => c == 'Z' || c == 'z'; return ['Z']) <|> do
    let mark ← one fun c => c == '+' || c == '-'
    let hour ← calendarNumber 2 0 23
    literal ":"
    let minute ← calendarNumber 2 0 59
    let mark := if hour + minute == 0 then '+' else mark
    return mark :: padNumber 2 hour ++ ':' :: padNumber 2 minute

/-- A date, a time or both. -/
def dateTime : Reader Setting := do
  let behindDate : Reader (List Char) := do
    let _ ← one fun c => c == 'T' || c == 't' || c == ' '
    let t ← time
    return 'T' :: t ++ (← optional offset).getD []
  let full : Reader (List Char) := do
    let d ← date
    return d ++ (← optional behindDate).getD []
  return .text (String.ofList (← full <|> time))

/-- A value that is not made of others. -/
def scalar : Reader Setting :=
  (do return .text (String.ofList (← quotedText))) <|>
    (do literal "true"; return .bool true) <|> (do literal "false"; return .bool false) <|>
    dateTime <|> decimal <|> special <|> integer

end Mdx.Toml

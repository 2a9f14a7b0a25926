/-
Numbers of double precision, as exact values: a significand below 2^53 times a
power of two. A decimal is read as the number nearest to it, a tie going to the
even significand, and a number is written with the fewest digits that are read
as it again, never with an exponent.
-/
namespace Mdx

/-- A number of double precision. -/
inductive Number where
  /-- The number `significand * 2 ^ exponent`, or minus it. -/
  | finite (negative : Bool) (significand : Nat) (exponent : Int)
  | infinite (negative : Bool)
  | undefined
  deriving DecidableEq, Repr

namespace Number

/-- The exponent of the smallest numbers. -/
def minExponent : Int := -1074

/-- The exponent of the largest numbers. -/
def maxExponent : Int := 971

/-- The fraction `num / den` in units of `base ^ exponent`, again as a fraction. -/
def scaled (base num den : Nat) (exponent : Int) : Nat × Nat :=
  let factor := base.pow exponent.natAbs
  if exponent < 0 then (num * factor, den) else (num, den * factor)

/-- The integer nearest to `num / den`; a tie goes to the even one. -/
def roundQuotient (num den : Nat) : Nat :=
  let q := num / den
  let r := num % den
  if 2 * r < den || (2 * r == den && q % 2 == 0) then q else q + 1

/-- The exponent in whose units `num / den` has 53 bits, if it is not too small for that. -/
def exponentOf (num den : Nat) : Int :=
  let guess : Int := (num.log2 : Int) - den.log2 - 52
  let (n, d) := scaled 2 num den guess
  max minExponent (if n / d < Nat.pow 2 52 then guess - 1 else guess)

/-- The number nearest to `num / den`. -/
def ofFraction (negative : Bool) (num den : Nat) : Number :=
  if num == 0 then .finite negative 0 minExponent
  else
    let exponent := exponentOf num den
    let (n, d) := scaled 2 num den exponent
    let rounded := roundQuotient n d
    let (significand, exponent) :=
      if rounded == Nat.pow 2 53 then (Nat.pow 2 52, exponent + 1) else (rounded, exponent)
    if maxExponent < exponent then .infinite negative else .finite negative significand exponent

/-- The number nearest to `mantissa * 10 ^ exponent`. -/
def ofDecimal (negative : Bool) (mantissa : Nat) (exponent : Int) : Number :=
  let magnitude := (Nat.toDigits 10 mantissa).length + exponent
  if mantissa == 0 || magnitude < -330 then .finite negative 0 minExponent
  else if 330 < magnitude then .infinite negative
  else
    let (num, den) := scaled 10 mantissa 1 (-exponent)
    ofFraction negative num den

/-- The number nearest to an integer. -/
def ofInt (i : Int) : Number := ofDecimal (i < 0) i.natAbs 0

/-- The number is zero. -/
def isZero : Number → Bool
  | finite _ significand _ => significand == 0
  | _ => false

/-- The decimal with `digits` places that is nearest to `num / den` among the two around it that
are read as `x`. The first place of `num / den` stands for `10 ^ (top - 1)`. -/
def decimalOf? (x : Number) (num den : Nat) (top : Int) (digits : Nat) : Option (Nat × Int) :=
  let exponent := top - digits
  let (n, d) := scaled 10 num den exponent
  let below := n / d
  let reads (mantissa : Nat) : Bool := ofDecimal false mantissa exponent == x
  let nearer := if 2 * (n % d) < d then [below, below + 1] else [below + 1, below]
  (nearer.find? reads).map (·, exponent)

/-- The shortest decimal `mantissa * 10 ^ exponent` that is read as this number, sign apart. -/
def shortest (significand : Nat) (exponent : Int) : Nat × Int :=
  let (num, den) := scaled 2 significand 1 (-exponent)
  let whole := num / den
  let top : Int :=
    if 0 < whole then (Nat.toDigits 10 whole).length
    else 1 - (((List.range 330).find? fun k => den ≤ num * Nat.pow 10 k).getD 0 : Nat)
  let found := (List.range 17).findSome? fun i =>
    decimalOf? (.finite false significand exponent) num den top (i + 1)
  found.getD (0, 0)

/-- The decimal `mantissa * 10 ^ exponent` in positional notation, without a point if it is whole. -/
def positional (mantissa : Nat) (exponent : Int) : List Char :=
  let digits := Nat.toDigits 10 mantissa
  if 0 ≤ exponent then digits ++ List.replicate exponent.natAbs '0'
  else
    let places := exponent.natAbs
    let padded := List.replicate (places + 1 - digits.length) '0' ++ digits
    let whole := padded.take (padded.length - places)
    let fraction := ((padded.drop (padded.length - places)).reverse.dropWhile (· == '0')).reverse
    if fraction.isEmpty then whole else whole ++ '.' :: fraction

/-- The text of a number. -/
def render : Number → String
  | undefined => "NaN"
  | infinite negative => if negative then "-inf" else "inf"
  | finite negative significand exponent =>
    let digits :=
      if significand == 0 then ['0']
      else
        let (mantissa, exponent) := shortest significand exponent
        positional mantissa exponent
    String.ofList (if negative then '-' :: digits else digits)

end Number

end Mdx

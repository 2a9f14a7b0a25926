/-
Digits and the numbers that they stand for.
-/
namespace Mdx

/-- The value of a digit in some base up to sixteen. -/
def digitValue (c : Char) : Nat :=
  if c.isDigit then c.toNat - '0'.toNat else c.toLower.toNat - 'a'.toNat + 10

/-- A digit in base sixteen. -/
def isHexDigit (c : Char) : Bool := c.isDigit || ('a' ≤ c.toLower && c.toLower ≤ 'f')

/-- The number that digits stand for in a base. -/
def valueOf (base : Nat) (digits : List Char) : Nat :=
  digits.foldl (fun n d => base * n + digitValue d) 0

theorem valueOf_append (base : Nat) (a b : List Char) :
    valueOf base (a ++ b) = b.foldl (fun n d => base * n + digitValue d) (valueOf base a) := by
  simp [valueOf]

end Mdx

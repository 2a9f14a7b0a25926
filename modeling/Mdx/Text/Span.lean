/-
Spans of a text. A text is a list of characters; places in it are counted in
the bytes of its UTF-8 form, and a span is a half-open pair of such places.
-/
namespace Mdx

/-- The bytes from `start` up to and not including `stop`. -/
structure Span where
  start : Nat
  stop : Nat
  deriving DecidableEq, Repr, Inhabited

namespace Span

/-- A span that holds no byte; its ends may be out of order. -/
def isEmpty (s : Span) : Bool := s.stop ≤ s.start

/-- The number of bytes in the span. -/
def length (s : Span) : Nat := s.stop - s.start

/-- The byte at `offset` lies in the span. -/
def contains (s : Span) (offset : Nat) : Bool := s.start ≤ offset && offset < s.stop

/-- The span of `length` bytes from `start`. -/
def ofLength (start length : Nat) : Span := ⟨start, start + length⟩

/-- The order by start, then by stop. -/
def le (a b : Span) : Bool := a.start < b.start || (a.start == b.start && a.stop ≤ b.stop)

end Span

/-- The number of bytes in the UTF-8 form of a text. -/
def byteLength : List Char → Nat
  | [] => 0
  | c :: cs => c.utf8Size + byteLength cs

/-- The text after its first `n` bytes; a character cut by the boundary is dropped whole. -/
def dropBytes : List Char → Nat → List Char
  | cs, 0 => cs
  | [], _ => []
  | c :: cs, n => dropBytes cs (n - c.utf8Size)

/-- The first `n` bytes of the text; a character cut by the boundary is kept whole. -/
def takeBytes : List Char → Nat → List Char
  | _, 0 => []
  | [], _ => []
  | c :: cs, n => c :: takeBytes cs (n - c.utf8Size)

/-- The text of a span. -/
def slice (cs : List Char) (s : Span) : List Char := takeBytes (dropBytes cs s.start) s.length

/-- Whether `offset` is between two characters of the text, or at one of its ends. -/
def isBoundary : List Char → Nat → Bool
  | _, 0 => true
  | [], _ => false
  | c :: cs, n => c.utf8Size ≤ n && isBoundary cs (n - c.utf8Size)

/-- The character that starts at `offset`. -/
def charAt? : List Char → Nat → Option Char
  | [], _ => none
  | c :: _, 0 => some c
  | c :: cs, n => if c.utf8Size ≤ n then charAt? cs (n - c.utf8Size) else none

/-- The character `c`, one byte long, ends at `offset`. -/
def precededBy (cs : List Char) (offset : Nat) (c : Char) : Bool :=
  0 < offset && charAt? cs (offset - 1) == some c

@[simp] theorem takeBytes_zero (cs : List Char) : takeBytes cs 0 = [] := by cases cs <;> rfl

@[simp] theorem dropBytes_zero (cs : List Char) : dropBytes cs 0 = cs := by cases cs <;> rfl

/-- Cutting a text loses nothing. -/
theorem takeBytes_append_dropBytes (cs : List Char) (n : Nat) :
    takeBytes cs n ++ dropBytes cs n = cs := by
  induction cs generalizing n with
  | nil => cases n <;> rfl
  | cons c cs ih => cases n <;> simp [takeBytes, dropBytes, ih]

theorem byteLength_append (a b : List Char) : byteLength (a ++ b) = byteLength a + byteLength b := by
  induction a with
  | nil => simp [byteLength]
  | cons c a ih => simp [byteLength, ih, Nat.add_assoc]

end Mdx

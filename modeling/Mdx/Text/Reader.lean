/-
Readers of text. A reader takes what it reads from the front of a text, or fails
and takes nothing.
-/
namespace Mdx

/-- A reader of an `α`. -/
abbrev Reader (α : Type) : Type := StateT (List Char) Option α

namespace Reader

/-- Takes the longest run of characters of `p`. -/
def run (p : Char → Bool) : Reader (List Char) := fun cs => some (cs.takeWhile p, cs.dropWhile p)

/-- Takes one character of `p`. -/
def one (p : Char → Bool) : Reader Char
  | c :: cs => if p c then some (c, cs) else none
  | [] => none

/-- Takes that text. -/
def literal (text : String) : Reader Unit := fun cs =>
  if text.toList.isPrefixOf cs then some ((), cs.drop text.length) else none

/-- Takes exactly `n` characters of `p`. -/
def exactly (n : Nat) (p : Char → Bool) : Reader (List Char) := fun cs =>
  let taken := cs.take n
  if taken.length == n && taken.all p then some (taken, cs.drop n) else none

/-- Goes on only at the end of the text. -/
def atEnd : Reader Unit
  | [] => some ((), [])
  | _ :: _ => none

/-- Reads as often as it goes, at most `n` times. -/
def upTo {α : Type} (r : Reader α) : (n : Nat) → Reader (List α)
  | 0 => pure []
  | n + 1 => fun cs =>
    match r cs with
    | none => some ([], cs)
    | some (a, rest) => (upTo r n rest).map fun (as, last) => (a :: as, last)

/-- Reads as often as it goes. Each time takes at least one character. -/
def many {α : Type} (r : Reader α) : Reader (List α) := fun cs => upTo r cs.length cs

/-- Reads one or more with a separator between them. -/
def separated {α : Type} (separator : Reader Unit) (r : Reader α) : Reader (List α) := do
  let first ← r
  return first :: (← many (separator *> r))

end Reader

end Mdx

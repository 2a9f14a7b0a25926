/-
Brackets of embedded script: the brace that closes an expression, and whether
the brackets of module statements pair up. Brackets inside strings, templates
and comments do not count.
-/
import Mdx.Error
import Mdx.Script.Token
import Mdx.Text.Cursor

namespace Mdx.Script

/-- Why no closing brace was found. -/
inductive BraceFailure where
  /-- The token that starts behind these characters never closes. -/
  | malformed (before : List Char)
  /-- The tokens ran out. -/
  | unclosed
  deriving DecidableEq, Repr

/-- The brace that brings the depth back to zero: the text before it, and whether only trivia was
met on the way. The first open brace, at depth zero, does not count as met; a closing brace at
depth zero is found at once. -/
def scanBrace : (depth : Nat) → (isEmpty : Bool) → List Token → Except BraceFailure (List Char × Bool)
  | _, _, [] => .error .unclosed
  | depth, isEmpty, t :: ts =>
    let proceed (depth : Nat) (isEmpty : Bool) : Except BraceFailure (List Char × Bool) :=
      match scanBrace depth isEmpty ts with
      | .ok (before, e) => .ok (t.text ++ before, e)
      | .error (.malformed before) => .error (.malformed (t.text ++ before))
      | .error .unclosed => .error .unclosed
    match t.kind with
    | .openBrace => proceed (depth + 1) (isEmpty && depth == 0)
    | .closeBrace => if depth ≤ 1 then .ok ([], isEmpty) else proceed (depth - 1) false
    | .malformed => .error (.malformed [])
    | kind => proceed depth (isEmpty && kind.isTrivia)

/-- A closing brace: where it stands, and whether only trivia is before it. -/
structure ClosingBrace where
  place : Cursor
  isEmpty : Bool
  deriving DecidableEq, Repr

/-- The brace that closes the expression whose open brace is at the cursor. -/
def closingBrace (c : Cursor) : Except ParseError ClosingBrace :=
  match scanBrace 0 true (tokenize c.rest) with
  | .ok (before, isEmpty) => .ok ⟨c.drop before.length, isEmpty⟩
  | .error (.malformed before) =>
    .error ⟨.unterminatedInExpression, (c.drop before.length).charSpan⟩
  | .error .unclosed => .error ⟨.unclosedExpression, c.byteSpan⟩

/-- The span of a token's first character. -/
def Located.firstChar (t : Located) : Span :=
  ⟨t.span.start, t.span.start + (t.text.head?.map Char.utf8Size).getD 0⟩

/-- Pairs brackets off against the stack of those still open; each entry is the closing bracket it
waits for and the place of the open one. -/
def checkBrackets : List (TokenKind × Span) → List Located → Except ParseError Unit
  | [], [] => .ok ()
  | (_, place) :: _, [] => .error ⟨.unclosedBracket, place⟩
  | stack, t :: ts =>
    if t.kind = .malformed then .error ⟨.unterminatedInModule, t.firstChar⟩
    else
      match t.kind.closer? with
      | some closer => checkBrackets ((closer, t.firstChar) :: stack) ts
      | none =>
        if t.kind.isCloser then
          match stack with
          | (expected, _) :: stack' =>
            if expected = t.kind then checkBrackets stack' ts
            else .error ⟨.unexpectedBracket, t.firstChar⟩
          | [] => .error ⟨.unexpectedBracket, t.firstChar⟩
        else checkBrackets stack ts

/-- The brackets of a text that starts at `base` pair up, and its strings and comments close. -/
def checkBalanced (base : Nat) (cs : List Char) : Except ParseError Unit :=
  checkBrackets [] (locate base (tokenize cs))

end Mdx.Script

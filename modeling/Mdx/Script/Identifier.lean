/-
Identifiers in script, outside strings and comments.
-/
import Mdx.Script.Token
import Mdx.Text.Letter

namespace Mdx.Script

/-- A character an identifier can start with. -/
def isIdentifierStart (c : Char) : Bool := isAlphabetic c || c == '_' || c == '$'

/-- A character an identifier can go on with. -/
def isIdentifierChar (c : Char) : Bool := isAlphanumeric c || c == '_' || c == '$'

/-- An identifier in code. -/
structure Identifier where
  name : String
  span : Span
  /-- It follows a point, so it names a property and refers to no binding. -/
  isProperty : Bool
  deriving DecidableEq, Repr

/-- The identifiers of a word that goes on with these characters at `base`, after the character
`previous` of the same word. An identifier does not start inside a run of identifier characters. -/
def wordIdentifiers (base : Nat) (previous : Option Char) : List Char → List Identifier
  | [] => []
  | c :: cs =>
    if isIdentifierStart c && !previous.any isIdentifierChar then
      let name := c :: cs.takeWhile isIdentifierChar
      let stop := base + byteLength name
      ⟨String.ofList name, ⟨base, stop⟩, previous == some '.'⟩ ::
        wordIdentifiers stop name.getLast? (cs.dropWhile isIdentifierChar)
    else wordIdentifiers (base + c.utf8Size) (some c) cs
  termination_by cs => cs.length
  decreasing_by
    · have := (List.dropWhile_sublist isIdentifierChar (l := cs)).length_le
      simp only [List.length_cons]
      omega
    · simp

/-- The identifiers of a text in order. Words are looked at one by one, and malformed tokens are
passed over. -/
def identifiers (cs : List Char) : List Identifier :=
  (locate 0 (tokenize cs)).flatMap fun t =>
    if t.kind = .word then wordIdentifiers t.span.start none t.text else []

end Mdx.Script

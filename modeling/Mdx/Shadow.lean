/-
Shadows of a document. A shadow keeps the characters of a set of bytes and all
blanks, and puts a space for each byte of any other character, so every place
of the shadow is the same place of the document.
-/
import Mdx.RangeSet
import Mdx.Text.Blank

namespace Mdx

/-- The shadow of the characters from `offset` on; `kept` are the spans that are kept. -/
def shadowFrom (kept : List Span) (offset : Nat) : List Char → List Char
  | [] => []
  | c :: cs =>
    let later := shadowFrom kept (offset + c.utf8Size) cs
    if isBlank c || kept.any (·.contains offset) then c :: later
    else List.replicate c.utf8Size ' ' ++ later

/-- The shadow of a document under a set of bytes. -/
def shadow (set : RangeSet) (cs : List Char) : List Char := shadowFrom set.merged 0 cs

end Mdx

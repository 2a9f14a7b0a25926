/-
Generated texts. A text is put together from pieces: words of its own, and
spans copied from a source. Only copied spans are mapped, so the mapping of a
generated text follows from its pieces.
-/
import Mdx.Mapping

namespace Mdx

/-- A piece of a generated text. -/
inductive Piece where
  /-- Text that is not in the source. -/
  | literal (text : List Char)
  /-- Text copied from the source. -/
  | copied (span : Span)
  deriving DecidableEq, Repr

/-- The text of a piece. -/
def Piece.text (source : List Char) : Piece → List Char
  | literal t => t
  | copied s => slice source s

/-- A text and its mapping to a source. -/
structure GeneratedText where
  text : List Char
  mapping : Mapping
  deriving DecidableEq, Repr

/-- The entries of copied pieces, the first piece standing at `offset`. -/
def entriesFrom (source : List Char) (offset : Nat) : List Piece → List Entry
  | [] => []
  | p :: ps =>
    let later := entriesFrom source (offset + byteLength (p.text source)) ps
    match p with
    | .literal _ => later
    | .copied s => ⟨s.start, offset, s.length⟩ :: later

/-- The text of pieces one after the other, with its mapping. -/
def GeneratedText.ofPieces (source : List Char) (pieces : List Piece) : GeneratedText :=
  ⟨pieces.flatMap (Piece.text source), .ofEntries (entriesFrom source 0 pieces)⟩

end Mdx

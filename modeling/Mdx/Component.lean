/-
The script view of a document, as a script analyzer reads it:

  pragma          the runtime comment, and the request to check if it is on
  modules         the module code at its places, all else blank
  component head  a function of the document's properties
  code            tags and expressions at their places, all else blank
  component tail

If the module code has a default export of its own, the component is not
exported: blanks stand where its export would, so no place moves.
-/
import Mdx.Generated
import Mdx.Script.Identifier
import Mdx.Shadow

namespace Mdx.Component

/-- The text before the module code. -/
def pragma (checkJs : Bool) (jsxImportSource : String) : String :=
  (if checkJs then "// @ts-check\n" else "") ++
    "/* @jsxRuntime automatic\n@jsxImportSource " ++ jsxImportSource ++ " */\n"

/-- What makes the component the default export. -/
def exportWords : String := "export default"

/-- The text before the component's content. -/
def head (exported : Bool) : String :=
  "\n/** @param \x7b\x7breadonly [key: string]: unknown\x7d\x7d props */\n" ++
    (if exported then exportWords else String.ofList (List.replicate exportWords.length ' ')) ++
    " function MDXContent(props) \x7b\n  return <>\n"

/-- The text behind the component's content. -/
def tail : String := "\n  </>\n\x7d\n"

/-- The script view of a document that does not parse. -/
def fallback : String := "export default function MDXContent() \x7b\x7d\n"

/-- Whether two names stand side by side. -/
def adjacent (a b : String) : List String → Bool
  | x :: y :: names => (x == a && y == b) || adjacent a b (y :: names)
  | _ => false

/-- Whether a statement is a default export: it starts with the two words, or it is an export in
which a name is given as the default. Properties do not count. -/
def isDefaultExport (statement : List Char) : Bool :=
  let names := ((Script.identifiers statement).filter (!·.isProperty)).map (·.name)
  match names with
  | "export" :: rest => rest.head? == some "default" || adjacent "as" "default" names
  | _ => false

/-- The pieces of a shadow at `offset`, of which the spans given are copied from the source. -/
def shadowPieces (offset : Nat) (shadow : List Char) : List Span → List Piece
  | [] => [.literal shadow]
  | s :: spans =>
    .literal (takeBytes shadow (s.start - offset)) :: .copied s ::
      shadowPieces s.stop (dropBytes shadow (s.stop - offset)) spans

/-- The pieces of the script view. -/
def pieces (checkJs : Bool) (jsxImportSource : String) (source : List Char) (modules code : RangeSet) :
    List Piece :=
  let hasDefault := modules.ranges.any fun s => isDefaultExport (slice source s)
  [.literal (pragma checkJs jsxImportSource).toList] ++
    shadowPieces 0 (shadow modules source) modules.merged ++
    [.literal (head !hasDefault).toList] ++
    shadowPieces 0 (shadow code source) code.merged ++
    [.literal tail.toList]

/-- The script view. -/
def view (checkJs : Bool) (jsxImportSource : String) (source : List Char) (modules code : RangeSet) :
    GeneratedText :=
  .ofPieces source (pieces checkJs jsxImportSource source modules code)

end Mdx.Component

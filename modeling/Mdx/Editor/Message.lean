/-
What the server tells an editor, in the form of the editor protocol. Places are
positions whose columns count UTF-16 units, and what is absent is left out.
-/
import Mdx.Editor.Json
import Mdx.Feature.Basic

namespace Mdx.Editor

open JsonValue

/-- A number that is not negative. -/
def natural (n : Nat) : JsonValue := .int n

/-- A position. -/
def positionMessage (p : Position) : JsonValue :=
  .object [("character", natural p.column), ("line", natural p.line)]

/-- A span of a text. -/
def rangeMessage (source : List Char) (s : Span) : JsonValue :=
  let range := utf16Range source s
  .object [("end", positionMessage range.stop), ("start", positionMessage range.start)]

/-- A span of the text of a document. -/
def locationMessage (uri : String) (source : List Char) (s : Span) : JsonValue :=
  .object [("range", rangeMessage source s), ("uri", .text uri)]

/-- A list, left out if it is empty. -/
def nonEmpty (items : List JsonValue) : Option JsonValue :=
  if items.isEmpty then none else some (.array items)

/-- A list, or null if it is empty. -/
def listOrNull (items : List JsonValue) : JsonValue := (nonEmpty items).getD .null

/-- A place that a diagnostic points to. -/
def relatedMessage (uri : String) (source : List Char) (r : Related) : JsonValue :=
  .object [("location", locationMessage uri source r.range), ("message", .text r.message)]

/-- A diagnostic. What an unused import names is marked as unnecessary. -/
def diagnosticMessage (uri : String) (source : List Char) (d : Diagnostic) : JsonValue :=
  .ofMembers [
    ("code", d.code.map .text),
    ("message", some (.text d.message)),
    ("range", some (rangeMessage source d.range)),
    ("relatedInformation", nonEmpty (d.related.map (relatedMessage uri source))),
    ("severity", some (natural d.severity.code)),
    ("source", some (.text d.source)),
    ("tags", if d.code = some "unused-import" then some (.array [natural 1]) else none)]

/-- What to show about a place. -/
def hoverMessage (source : List Char) (h : Hover) : JsonValue :=
  .ofMembers [
    ("contents", some (.object [("kind", .text "markdown"), ("value", .text h.contents)])),
    ("range", h.range.map (rangeMessage source))]

/-- A change of a text. -/
def editMessage (source : List Char) (range : Span) (newText : String) : JsonValue :=
  .object [("newText", .text newText), ("range", rangeMessage source range)]

/-- A completion. -/
def completionMessage (source : List Char) (c : Completion) : JsonValue :=
  .ofMembers [
    ("detail", c.detail.map .text),
    ("kind", some (natural c.kind.code)),
    ("label", some (.text c.label)),
    ("textEdit", c.editRange.map (editMessage source · c.label))]

mutual

/-- An entry of an outline with what is below it. -/
def symbolMessage (source : List Char) : Symbol → JsonValue
  | .mk e children =>
    .ofMembers [
      ("children", nonEmpty (symbolMessages source children)),
      ("detail", e.detail.map .text),
      ("kind", some (natural e.kind.code)),
      ("name", some (.text e.name)),
      ("range", some (rangeMessage source e.range)),
      ("selectionRange", some (rangeMessage source e.selection))]

/-- The entries of an outline. -/
def symbolMessages (source : List Char) : List Symbol → List JsonValue
  | [] => []
  | s :: ss => symbolMessage source s :: symbolMessages source ss

end

/-- Lines that can be folded. -/
def foldMessage (f : Feature.LineFold) : JsonValue :=
  .ofMembers [
    ("endLine", some (natural f.endLine)),
    ("kind", f.kind.map fun k => .text k.name),
    ("startLine", some (natural f.startLine))]

/-- What the server can do. Texts are sent whole. -/
def capabilities : JsonValue :=
  .object [
    ("capabilities", .object [
      ("completionProvider", .object [
        ("triggerCharacters", .array [.text "<", .text "\x7b", .text "."])]),
      ("definitionProvider", .bool true),
      ("documentSymbolProvider", .bool true),
      ("foldingRangeProvider", .bool true),
      ("hoverProvider", .bool true),
      ("renameProvider", .bool true),
      ("textDocumentSync", natural 1)]),
    ("serverInfo", .object [("name", .text "mdx-lsp"), ("version", .text "0.1.0")])]

end Mdx.Editor

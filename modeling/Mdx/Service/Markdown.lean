/-
The service for prose views: an outline of the headings, and folds for their
sections, for fenced code and for lists.
-/
import Mdx.Markdown.Block
import Mdx.Service.Basic

namespace Mdx.MarkdownService

open Mdx.Markdown (Heading Structure)

/-- The span without the blanks at its end. -/
def trimSpan (text : List Char) (s : Span) : Span :=
  ⟨s.start, s.start + byteLength (trimRight (slice text s))⟩

/-- The headings of a text, whose spans hold no blanks at their ends. -/
def headings (text : List Char) : List Heading :=
  (Structure.ofText text).headings.map fun h => { h with span := trimSpan text h.span }

/-- The section of a heading, to the next heading of the same or a higher rank among those behind
it. -/
def sectionSpan (text : List Char) (h : Heading) (later : List Heading) : Span :=
  let stop := ((later.find? (·.level ≤ h.level)).map (·.span.start)).getD (byteLength text)
  trimSpan text ⟨h.span.start, stop⟩

/-- The outline entry of a heading. -/
def headingEntry (text : List Char) (h : Heading) (later : List Heading) : SymbolEntry :=
  let name := trim h.text
  ⟨if name.isEmpty then "Heading" else String.ofList name, some ("h" ++ toString h.level), .heading,
    sectionSpan text h later, h.span⟩

/-- A heading whose section is still open, and the closed sections in it. -/
structure OpenSection where
  level : Nat
  entry : SymbolEntry
  children : List Symbol

/-- The symbol of a section. -/
def OpenSection.close (s : OpenSection) : Symbol := .mk s.entry s.children

/-- Closes the open sections, the innermost first, of a level not above `level`; a section goes
into the one around it, or behind the outermost ones. -/
def closeSections (level : Nat) : List OpenSection → List Symbol → List OpenSection × List Symbol
  | [], roots => ([], roots)
  | [s], roots => if level ≤ s.level then ([], roots ++ [s.close]) else ([s], roots)
  | s :: p :: stack, roots =>
    if level ≤ s.level then
      closeSections level ({ p with children := p.children ++ [s.close] } :: stack) roots
    else (s :: p :: stack, roots)
  termination_by stack => stack.length

/-- The outline of headings, inside the open sections and behind the outermost ones. -/
def outlineFrom (text : List Char) : List OpenSection → List Symbol → List Heading → List Symbol
  | stack, roots, [] => (closeSections 0 stack roots).2
  | stack, roots, h :: later =>
    let (stack, roots) := closeSections h.level stack roots
    outlineFrom text (⟨h.level, headingEntry text h later, []⟩ :: stack) roots later

/-- The outline of headings: each is below the nearest one before it of a higher rank. -/
def outline (text : List Char) (hs : List Heading) : List Symbol := outlineFrom text [] [] hs

/-- The sections of headings. -/
def sections (text : List Char) : List Heading → List Span
  | [] => []
  | h :: later => sectionSpan text h later :: sections text later

/-- The outline of a prose view. -/
def symbols (d : VirtualDocument) : Except ServiceError (List Symbol) := do
  expectLanguage .markdown d
  return outline d.text (headings d.text)

/-- The folds of a prose view that have several lines, in the order of their places. -/
def folds (d : VirtualDocument) : Except ServiceError (List Fold) := do
  expectLanguage .markdown d
  let blocks := (Structure.ofText d.text).folds.map (trimSpan d.text)
  let spans := (sections d.text (headings d.text) ++ blocks).filter fun s =>
    (slice d.text s).contains '\n'
  return (spans.map fun s => (⟨s, some .region⟩ : Fold)).mergeSort fun a b => a.range.le b.range

/-- The service for prose views. -/
def service : Service where
  language := .markdown
  symbols := symbols
  folds := folds

end Mdx.MarkdownService

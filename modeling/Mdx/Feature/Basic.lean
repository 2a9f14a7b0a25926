/-
Editor features. A feature takes a place in a document, asks the services about
the views, and gives each answer as places in the document. What has no place
in the document is dropped.
-/
import Mdx.Service.Registry
import Mdx.Text.Position

namespace Mdx.Feature

/-- The views that have a service, with it. -/
def served (f : VirtualFile) (r : Registry) : List (Service × VirtualDocument) :=
  f.allDocuments.filterMap fun d => (r.service? d.language).map (·, d)

/-- The views that map a place of the document, with their services and the place in the view. -/
def servedAt (f : VirtualFile) (r : Registry) (offset : Nat) : List (Service × VirtualDocument × Nat) :=
  f.allDocuments.filterMap fun d => do
    let generated ← d.mapping.toGeneratedCursor offset
    let s ← r.service? d.language
    return (s, d, generated)

/-- A span that may be absent: absent stays absent, and a span needs an image. -/
def carryOptional (d : VirtualDocument) : Option Span → Option (Option Span)
  | none => some none
  | some s => (d.mapping.toSourceSpan s).map some

/-- The diagnostic in the document; places it points to are dropped if they have no image. -/
def carryDiagnostic (d : VirtualDocument) (x : Diagnostic) : Option Diagnostic := do
  let range ← d.mapping.toSourceSpan x.range
  let related := x.related.filterMap fun info =>
    (d.mapping.toSourceSpan info.range).map fun range => { info with range }
  return { x with range, related }

/-- The diagnostics of a document. One that does not parse has its parse error alone. -/
def diagnostics (f : VirtualFile) (r : Registry) : List Diagnostic :=
  match f.compiled.error? with
  | some e => [⟨e.span, .error, none, e.message, "mdx", []⟩]
  | none =>
    let found := (served f r).flatMap fun (s, d) =>
      match s.diagnostics d with
      | .ok reported => reported.filterMap (carryDiagnostic d)
      | .error _ => []
    found.mergeSort fun a b => a.range.le b.range

/-- What to show at a place, from the first view that has something. -/
def hover (f : VirtualFile) (r : Registry) (offset : Nat) : Option Hover :=
  (servedAt f r offset).findSome? fun (s, d, generated) =>
    match s.hover d generated with
    | .ok (some h) => (carryOptional d h.range).map fun range => { h with range }
    | _ => none

/-- The completions at a place, from the first view that has any. -/
def completions (f : VirtualFile) (r : Registry) (offset : Nat) : List Completion :=
  let found := (servedAt f r offset).findSome? fun (s, d, generated) =>
    match s.completions d generated with
    | .ok items =>
      let carried := items.filterMap fun item =>
        (carryOptional d item.editRange).map fun editRange => { item with editRange }
      if carried.isEmpty then none else some carried
    | .error _ => none
  found.getD []

/-- The places that define the name at a place, from the first view that has any. -/
def definition (f : VirtualFile) (r : Registry) (offset : Nat) : List Span :=
  let found := (servedAt f r offset).findSome? fun (s, d, generated) =>
    match s.definition d generated with
    | .ok targets =>
      let carried := targets.filterMap d.mapping.toSourceSpan
      if carried.isEmpty then none else some carried
    | .error _ => none
  found.getD []

/-- The changes of the first view that has any; an error of a view before it ends the search. -/
def renameIn (newName : String) :
    List (Service × VirtualDocument × Nat) → Except ServiceError (List TextEdit)
  | [] => .ok []
  | (s, d, generated) :: later => do
    let edits ← s.rename d generated newName
    if edits.isEmpty then renameIn newName later
    else
      return edits.filterMap fun e => (d.mapping.toSourceSpan e.range).map fun range => { e with range }

/-- The changes that rename what is at a place. -/
def rename (f : VirtualFile) (r : Registry) (offset : Nat) (newName : String) :
    Except ServiceError (List TextEdit) := renameIn newName (servedAt f r offset)

mutual

/-- The entry in the document and what is below it. A range may hold text of no source, so its
image is around all that has one; a selection outside the range becomes the range. -/
def carrySymbol (d : VirtualDocument) : Symbol → Option Symbol
  | .mk e children =>
    match d.mapping.toSourceEnclosing e.range with
    | none => none
    | some range =>
      let inside (s : Span) : Bool := range.start ≤ s.start && s.stop ≤ range.stop
      let selection := ((d.mapping.toSourceEnclosing e.selection).filter inside).getD range
      some (.mk { e with range, selection } (carrySymbols d children))

/-- The entries that have an image. -/
def carrySymbols (d : VirtualDocument) : List Symbol → List Symbol
  | [] => []
  | s :: ss =>
    match carrySymbol d s with
    | some t => t :: carrySymbols d ss
    | none => carrySymbols d ss

end

/-- The outline of a document: the entries of all views in the order of their places. -/
def symbols (f : VirtualFile) (r : Registry) : List Symbol :=
  let found := (served f r).flatMap fun (s, d) =>
    match s.symbols d with
    | .ok entries => carrySymbols d entries
    | .error _ => []
  found.mergeSort fun a b => a.entry.range.start ≤ b.entry.range.start

/-- Lines that can be folded. -/
structure LineFold where
  startLine : Nat
  endLine : Nat
  kind : Option FoldKind
  deriving DecidableEq, Repr

/-- The kind of fold that a node makes. -/
def foldKind? : NodeKind → Option FoldKind
  | .moduleBlock => some .imports
  | .frontmatter .. | .blockElement _ | .blockExpression _ | .code _ | .math => some .region
  | _ => none

/-- The lines of a span, from that of its first byte to that of its last, if it has several. -/
def lineFold? (source : List Char) (span : Span) (kind : Option FoldKind) : Option LineFold :=
  let start := (bytePosition source span.start).line
  let stop := (bytePosition source (span.stop - 1)).line
  if !span.isEmpty && start < stop then some ⟨start, stop, kind⟩ else none

/-- Keeps the first of neighbours with the same lines. -/
def dedupFolds : List LineFold → List LineFold
  | a :: b :: folds =>
    if a.startLine = b.startLine ∧ a.endLine = b.endLine then dedupFolds (a :: folds)
    else a :: dedupFolds (b :: folds)
  | folds => folds
  termination_by folds => folds.length

/-- The folds that the tree of a document makes. -/
def treeFolds (f : VirtualFile) : List LineFold :=
  match f.compiled.tree? with
  | none => []
  | some tree => tree.preorder.filterMap fun n => do
    let kind ← foldKind? n.kind
    let span ← n.span
    lineFold? f.source span (some kind)

/-- The folds of the services. -/
def serviceFolds (f : VirtualFile) (r : Registry) : List LineFold :=
  (served f r).flatMap fun (s, d) =>
    match s.folds d with
    | .ok folds => folds.filterMap fun fold => do
      let span ← d.mapping.toSourceEnclosing fold.range
      lineFold? f.source span fold.kind
    | .error _ => []

/-- The folds of a document in the order of their lines, no pair of lines twice; a fold of the tree
goes before one of a service. -/
def folds (f : VirtualFile) (r : Registry) : List LineFold :=
  dedupFolds <| (treeFolds f ++ serviceFolds f r).mergeSort fun a b =>
    a.startLine < b.startLine || (a.startLine == b.startLine && a.endLine ≤ b.endLine)

end Mdx.Feature

/-
The regions of a document: each visible byte belongs to the front matter, to
module code, to embedded code or, if to none of these, to prose.

An element is code only in its own tags; what is between them is classified by
its children. An expression is code, but if it is empty its inside counts as
module code. A node without a span is passed over with all that is below it.
-/
import Mdx.Node
import Mdx.RangeSet

namespace Mdx

/-- A front matter block: its whole span, and the value between its fences. -/
structure FrontmatterRegion where
  dialect : Dialect
  span : Span
  value : Span
  deriving DecidableEq, Repr

/-- The spans that a walk over a tree has met so far. -/
structure FoundSpans where
  frontmatter : List FrontmatterRegion := []
  modules : List Span := []
  code : List Span := []
  content : List Span := []
  deriving DecidableEq, Repr

namespace FoundSpans

/-- The spans of both, in order. -/
def append (a b : FoundSpans) : FoundSpans :=
  ⟨a.frontmatter ++ b.frontmatter, a.modules ++ b.modules, a.code ++ b.code, a.content ++ b.content⟩

/-- What a node with the span `span` adds by itself. -/
def ofNode (node : Node) (span : Span) : FoundSpans :=
  match node.kind with
  | .frontmatter dialect value => { frontmatter := [⟨dialect, span, value⟩] }
  | .moduleStatement => { modules := [span] }
  | .blockElement _ =>
    match node.childrenSpan with
    | some content =>
      { code := [⟨span.start, content.start⟩, ⟨content.stop, span.stop⟩], content := [content] }
    | none => { code := [span] }
  | .inlineElement _ =>
    match node.childrenSpan with
    | some content => { code := [⟨span.start, content.start⟩, ⟨content.stop, span.stop⟩] }
    | none => { code := [span] }
  | .blockExpression e | .inlineExpression e =>
    if e.isEmpty then
      { modules := [e.body], code := [⟨span.start, e.body.start⟩, ⟨e.body.stop, span.stop⟩] }
    else { code := [span] }
  | _ => {}

end FoundSpans

/-- A walk that collects spans: what it has met, and how deep it is below a node without a span. -/
structure Classifier where
  found : FoundSpans := {}
  skipping : Nat := 0

/-- One step of the walk. -/
def Classifier.step (c : Classifier) : WalkStep → Classifier
  | .enter node =>
    if 0 < c.skipping then { c with skipping := c.skipping + 1 }
    else
      match node.span with
      | some span => { c with found := c.found.append (.ofNode node span) }
      | none => { c with skipping := 1 }
  | .leave _ => { c with skipping := c.skipping - 1 }

/-- The regions of a document; prose is what is in none of them. -/
structure Regions where
  frontmatter : List FrontmatterRegion
  modules : RangeSet
  code : RangeSet
  /-- The contents of block elements. -/
  content : RangeSet
  deriving DecidableEq, Repr

namespace Regions

/-- The regions of a tree. -/
def ofTree (root : Node) : Regions :=
  let found := (root.walk.foldl Classifier.step {}).found
  ⟨found.frontmatter, .ofList found.modules, .ofList found.code, .ofList found.content⟩

/-- All that is not prose. -/
def nonProse (r : Regions) : RangeSet :=
  (r.modules.union r.code).union (.ofList (r.frontmatter.map FrontmatterRegion.span))

end Regions

end Mdx

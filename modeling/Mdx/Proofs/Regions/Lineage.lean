/-
Which nodes the regions of a tree come from, if any of its nodes may lack a span.
A node counts if it has a span and every node above it has one; for this each node
is taken together with the nodes above it (`Lineage`), since equal nodes may stand
below different ones.

The recursion over the tree collects, in order, what the nodes that count add by
themselves (`found_eq_ofLineages`). It finds the same if all others are taken out of
the tree (`found_pruned`): an element asks its children where its content starts and
stops, but those that are taken out had no answer to give.
-/
import Mdx.Proofs.Regions.Walk

namespace Mdx

/-- A node of a tree and the nodes above it, the nearest one first. -/
structure Lineage where
  node : Node
  above : List Node

/-- Neither the node nor one above it lacks a span. -/
def Lineage.counts (l : Lineage) : Bool := (l.node :: l.above).all (·.span.isSome)

mutual

/-- The nodes of a tree, each before its children, with those above them. -/
def Node.lineages (above : List Node) : Node → List Lineage
  | .mk kind span nodes =>
    ⟨.mk kind span nodes, above⟩ :: lineagesAll (.mk kind span nodes :: above) nodes

/-- The nodes of trees that stand below the same nodes. -/
def lineagesAll (above : List Node) : List Node → List Lineage
  | [] => []
  | n :: nodes => n.lineages above ++ lineagesAll above nodes

end

mutual

theorem Node.map_node_lineages (above : List Node) :
    (n : Node) → (n.lineages above).map Lineage.node = n.preorder
  | .mk kind span nodes => by
    rw [Node.lineages, Node.preorder, List.map_cons, map_node_lineagesAll _ nodes]

theorem map_node_lineagesAll (above : List Node) :
    (nodes : List Node) → (lineagesAll above nodes).map Lineage.node = preorderAll nodes
  | [] => rfl
  | n :: nodes => by
    rw [lineagesAll, preorderAll, List.map_append, n.map_node_lineages, map_node_lineagesAll above nodes]

end

/-! ## What the nodes that count add -/

/-- All that is found, one after the other. -/
def FoundSpans.concat (parts : List FoundSpans) : FoundSpans := parts.foldr append {}

theorem FoundSpans.concat_append (a b : List FoundSpans) : concat (a ++ b) = (concat a).append (concat b) := by
  induction a with
  | nil => rfl
  | cons part a ih => exact (congrArg part.append ih).trans (append_assoc ..).symm

/-- What the nodes that count add by themselves. -/
def FoundSpans.ofLineages (ls : List Lineage) : FoundSpans :=
  concat ((ls.filter Lineage.counts).map fun l => l.node.ownFound)

theorem FoundSpans.ofLineages_cons (l : Lineage) (ls : List Lineage) : ofLineages (l :: ls) =
    if l.counts then l.node.ownFound.append (ofLineages ls) else ofLineages ls := by
  rw [ofLineages, List.filter_cons]
  split <;> rfl

theorem FoundSpans.ofLineages_append (a b : List Lineage) :
    ofLineages (a ++ b) = (ofLineages a).append (ofLineages b) := by
  rw [ofLineages, List.filter_append, List.map_append, concat_append]
  rfl

mutual

/-- Below a node without a span no node counts. -/
theorem Node.ofLineages_eq_empty {above : List Node} (h : above.all (·.span.isSome) = false) :
    (n : Node) → FoundSpans.ofLineages (n.lineages above) = {}
  | .mk kind span nodes => by
    have hbelow : (Node.mk kind span nodes :: above).all (·.span.isSome) = false := by
      rw [List.all_cons, h, Bool.and_false]
    rw [Node.lineages, FoundSpans.ofLineages_cons, Lineage.counts, hbelow, ofLineagesAll_eq_empty hbelow nodes]
    rfl

theorem ofLineagesAll_eq_empty {above : List Node} (h : above.all (·.span.isSome) = false) :
    (nodes : List Node) → FoundSpans.ofLineages (lineagesAll above nodes) = {}
  | [] => rfl
  | n :: nodes => by
    rw [lineagesAll, FoundSpans.ofLineages_append, n.ofLineages_eq_empty h, ofLineagesAll_eq_empty h nodes]
    rfl

end

mutual

/-- The recursion collects what the nodes that count add, in order. -/
theorem Node.found_eq_ofLineages {above : List Node} (h : above.all (·.span.isSome) = true) :
    (n : Node) → n.found = .ofLineages (n.lineages above)
  | .mk kind none nodes => by
    have hbelow : (Node.mk kind none nodes :: above).all (·.span.isSome) = false := rfl
    rw [Node.found, Node.lineages, FoundSpans.ofLineages_cons, Lineage.counts, hbelow,
      ofLineagesAll_eq_empty hbelow nodes]
    rfl
  | .mk kind (some span) nodes => by
    have hbelow : (Node.mk kind (some span) nodes :: above).all (·.span.isSome) = true := h
    rw [Node.found, Node.lineages, FoundSpans.ofLineages_cons, Lineage.counts, hbelow,
      foundAll_eq_ofLineages hbelow nodes]
    rfl

theorem foundAll_eq_ofLineages {above : List Node} (h : above.all (·.span.isSome) = true) :
    (nodes : List Node) → foundAll nodes = .ofLineages (lineagesAll above nodes)
  | [] => rfl
  | n :: nodes => by
    rw [foundAll, lineagesAll, FoundSpans.ofLineages_append, n.found_eq_ofLineages h,
      foundAll_eq_ofLineages h nodes]

end

/-! ## Trees from which nodes are taken out -/

mutual

/-- The tree without the nodes below the root that lack a span, and without all that is below them. -/
def Node.pruned : Node → Node
  | .mk kind span nodes => .mk kind span (prunedAll nodes)

/-- The trees whose root has a span, each without the nodes below that lack one. -/
def prunedAll : List Node → List Node
  | [] => []
  | n :: nodes => if n.span.isSome then n.pruned :: prunedAll nodes else prunedAll nodes

end

theorem prunedAll_eq (nodes : List Node) :
    prunedAll nodes = (nodes.filter (·.span.isSome)).map Node.pruned := by
  induction nodes with
  | nil => rfl
  | cons n nodes ih =>
    rw [prunedAll, List.filter_cons, ih]
    split <;> rfl

@[simp] theorem Node.kind_pruned : (n : Node) → n.pruned.kind = n.kind
  | .mk .. => rfl

@[simp] theorem Node.span_pruned : (n : Node) → n.pruned.span = n.span
  | .mk .. => rfl

/-- An answer that needs a span is given by the same node. -/
theorem findSome?_pruned {α : Type} (f : Span → α) (nodes : List Node) :
    ((nodes.filter (·.span.isSome)).map Node.pruned).findSome? (fun n => n.span.map f) =
      nodes.findSome? fun n => n.span.map f := by
  induction nodes with
  | nil => rfl
  | cons n nodes ih =>
    cases hspan : n.span with
    | none => simpa [hspan] using ih
    | some s => simp [hspan]

theorem Node.childrenSpan_pruned : (n : Node) → n.pruned.childrenSpan = n.childrenSpan
  | .mk kind span nodes => by
    have hstart : (prunedAll nodes).findSome? Node.start? = nodes.findSome? Node.start? := by
      rw [prunedAll_eq]
      exact findSome?_pruned Span.start nodes
    have hstop : (prunedAll nodes).reverse.findSome? Node.stop? = nodes.reverse.findSome? Node.stop? := by
      rw [prunedAll_eq, ← List.map_reverse, ← List.filter_reverse]
      exact findSome?_pruned Span.stop nodes.reverse
    rw [Node.pruned, Node.childrenSpan, Node.childrenSpan]
    simp only [Node.children, hstart, hstop]

theorem FoundSpans.ofNode_pruned (n : Node) (span : Span) : ofNode n.pruned span = ofNode n span := by
  rw [ofNode, n.kind_pruned, n.childrenSpan_pruned]
  rfl

theorem Node.found_of_span_eq_none : (n : Node) → n.span = none → n.found = {}
  | .mk _ none _, _ => rfl

mutual

/-- What is taken out of a tree was not found in it. -/
theorem Node.found_pruned : (n : Node) → n.pruned.found = n.found
  | .mk kind none nodes => rfl
  | .mk kind (some span) nodes => by
    have hown := FoundSpans.ofNode_pruned (.mk kind (some span) nodes) span
    rw [Node.pruned] at hown ⊢
    rw [Node.found, hown, foundAll_pruned nodes, Node.found]

theorem foundAll_pruned : (nodes : List Node) → foundAll (prunedAll nodes) = foundAll nodes
  | [] => rfl
  | n :: nodes => by
    rw [prunedAll, foundAll]
    split
    · rw [foundAll, n.found_pruned, foundAll_pruned nodes]
    · next hspan =>
      rw [n.found_of_span_eq_none (by simpa using hspan), foundAll_pruned nodes, FoundSpans.empty_append]

end

/-- **The regions of a tree with nodes that lack a span.** The walk collects what the recursion does that
does not enter such nodes: the front matter in order, and the sets of spans. This is what the nodes add
that have a span and stand below nodes with spans only, each in its turn. Without the nodes that lack a
span and all below them, the regions are the same. -/
theorem Regions.ofTree_collects (root : Node) :
    Regions.ofTree root = ⟨root.found.frontmatter, .ofList root.found.modules, .ofList root.found.code,
      .ofList root.found.content⟩ ∧
    (root.lineages []).map Lineage.node = root.preorder ∧
    root.found = .concat (((root.lineages []).filter Lineage.counts).map fun l => l.node.ownFound) ∧
    Regions.ofTree root.pruned = Regions.ofTree root := by
  refine ⟨Regions.ofTree_eq root, root.map_node_lineages [], root.found_eq_ofLineages rfl, ?_⟩
  rw [Regions.ofTree_eq, Regions.ofTree_eq, root.found_pruned]

/-- An element without a span hides the expression in it; the expression behind it counts. -/
example : (Regions.ofTree (.branch .root ⟨0, 10⟩
    [.mk (.blockElement ⟨some "Note", [], false⟩) none [.leaf (.inlineExpression ⟨⟨1, 2⟩, false⟩) ⟨0, 3⟩],
      .leaf (.blockExpression ⟨⟨5, 6⟩, false⟩) ⟨4, 7⟩])).code = .ofList [⟨4, 7⟩] := by decide +kernel

end Mdx

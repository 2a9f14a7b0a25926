/-
What the walk over a tree collects is what a plain recursion finds: the spans of
a node, then those of its children, and nothing at or below a node without a
span (`foldl_walk`). The walk counts how deep it is below such a node; inside,
each node raises the count and lowers it again, so the count is back where it
was when the walk leaves.
-/
import Mdx.Regions

namespace Mdx

namespace FoundSpans

@[simp] theorem empty_append (f : FoundSpans) : append {} f = f := rfl

@[simp] theorem append_empty (f : FoundSpans) : f.append {} = f := by simp [append]

theorem append_assoc (f g h : FoundSpans) : (f.append g).append h = f.append (g.append h) := by
  simp [append, List.append_assoc]

end FoundSpans

mutual

/-- The spans of a tree, by recursion. -/
def Node.found : Node → FoundSpans
  | .mk _ none _ => {}
  | .mk kind (some span) nodes =>
    (FoundSpans.ofNode (.mk kind (some span) nodes) span).append (foundAll nodes)

/-- The spans of trees one after the other. -/
def foundAll : List Node → FoundSpans
  | [] => {}
  | n :: nodes => n.found.append (foundAll nodes)

end

mutual

/-- Below a node without a span nothing is collected. -/
theorem foldl_walk_skipping : (n : Node) → (c : Classifier) → 0 < c.skipping →
    n.walk.foldl Classifier.step c = c
  | .mk kind span nodes, c, h => by
    have henter : c.step (.enter (.mk kind span nodes)) = { c with skipping := c.skipping + 1 } := by
      simp [Classifier.step, h]
    rw [Node.walk, List.foldl_cons, List.foldl_append, henter,
      foldl_walkAll_skipping nodes _ (Nat.succ_pos _)]
    simp [Classifier.step]

theorem foldl_walkAll_skipping : (nodes : List Node) → (c : Classifier) → 0 < c.skipping →
    (walkAll nodes).foldl Classifier.step c = c
  | [], _, _ => rfl
  | n :: nodes, c, h => by
    rw [walkAll, List.foldl_append, foldl_walk_skipping n c h, foldl_walkAll_skipping nodes c h]

end

mutual

/-- The walk collects what the recursion finds. -/
theorem foldl_walk : (n : Node) → (f : FoundSpans) →
    n.walk.foldl Classifier.step ⟨f, 0⟩ = ⟨f.append n.found, 0⟩
  | .mk kind none nodes, f => by
    have henter : Classifier.step ⟨f, 0⟩ (.enter (.mk kind none nodes)) = ⟨f, 1⟩ := by
      simp [Classifier.step, Node.span]
    rw [Node.walk, List.foldl_cons, List.foldl_append, henter, foldl_walkAll_skipping nodes _ Nat.one_pos]
    simp [Classifier.step, Node.found]
  | .mk kind (some span) nodes, f => by
    have henter : Classifier.step ⟨f, 0⟩ (.enter (.mk kind (some span) nodes)) =
        ⟨f.append (.ofNode (.mk kind (some span) nodes) span), 0⟩ := by
      simp [Classifier.step, Node.span]
    rw [Node.walk, List.foldl_cons, List.foldl_append, henter, foldl_walkAll nodes]
    simp [Classifier.step, Node.found, FoundSpans.append_assoc]

theorem foldl_walkAll : (nodes : List Node) → (f : FoundSpans) →
    (walkAll nodes).foldl Classifier.step ⟨f, 0⟩ = ⟨f.append (foundAll nodes), 0⟩
  | [], f => by simp [walkAll, foundAll]
  | n :: nodes, f => by
    rw [walkAll, List.foldl_append, foldl_walk n, foldl_walkAll nodes, foundAll, FoundSpans.append_assoc]

end

theorem Regions.ofTree_eq (root : Node) : Regions.ofTree root =
    ⟨root.found.frontmatter, .ofList root.found.modules, .ofList root.found.code,
      .ofList root.found.content⟩ := by
  have h : root.walk.foldl Classifier.step {} = ⟨root.found, 0⟩ := foldl_walk root {}
  simp [Regions.ofTree, h]

/-! ## Trees in which every node has a span -/

/-- What a node adds by itself. -/
def Node.ownFound (n : Node) : FoundSpans := n.span.elim {} (FoundSpans.ofNode n)

/-- A list that is kept by each part and put together with them, as every field of `FoundSpans`. -/
structure FoundSpans.Field {α : Type} (field : FoundSpans → List α) : Prop where
  empty : field {} = []
  append : ∀ f g, field (f.append g) = field f ++ field g

section Field

variable {α : Type} {field : FoundSpans → List α}

mutual

/-- If every node has a span, each adds its part. -/
theorem Node.found_eq_flatMap (hf : FoundSpans.Field field) : (n : Node) →
    (∀ m ∈ n.preorder, m.span ≠ none) → field n.found = n.preorder.flatMap fun m => field m.ownFound
  | .mk kind none nodes, h => by
    have := h (.mk kind none nodes) (by simp [Node.preorder])
    exact absurd rfl this
  | .mk kind (some span) nodes, h => by
    have hnodes : ∀ m ∈ preorderAll nodes, m.span ≠ none := fun m hm => h m (by simp [Node.preorder, hm])
    rw [Node.found, hf.append, foundAll_eq_flatMap hf nodes hnodes, Node.preorder, List.flatMap_cons]
    rfl

theorem foundAll_eq_flatMap (hf : FoundSpans.Field field) : (nodes : List Node) →
    (∀ m ∈ preorderAll nodes, m.span ≠ none) →
    field (foundAll nodes) = (preorderAll nodes).flatMap fun m => field m.ownFound
  | [], _ => by rw [foundAll, hf.empty]; rfl
  | n :: nodes, h => by
    rw [preorderAll, List.forall_mem_append] at h
    rw [foundAll, hf.append, Node.found_eq_flatMap hf n h.1, foundAll_eq_flatMap hf nodes h.2, preorderAll,
      List.flatMap_append]

end

end Field

/-- Among the spans of a tree are those that its nodes add, and no others. -/
theorem Node.mem_found {α : Type} {field : FoundSpans → List α} (hf : FoundSpans.Field field) {n : Node}
    (h : ∀ m ∈ n.preorder, m.span ≠ none) {x : α} :
    x ∈ field n.found ↔ ∃ m ∈ n.preorder, x ∈ field m.ownFound := by
  rw [Node.found_eq_flatMap hf n h, List.mem_flatMap]

end Mdx

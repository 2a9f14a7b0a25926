/-
The bytes that the nodes of a tree claim for themselves. A node marks spans for
the region they belong to: front matter, module code, embedded code or prose.
No two marks of a placed tree have a byte in common (`marked_preorder`), since
along the text the marks of a node come one after the other with those of its
children: an element marks what is before the first child and what is behind the
last one, an expression its braces and its body, and a node that only holds
others marks nothing.
-/
import Mdx.Proofs.Regions.Walk
import Mdx.Proofs.Tree.Nesting

namespace Mdx

open Cursor

/-- What bytes of a document are. -/
inductive Region where
  | frontmatter
  | modules
  | code
  | prose
  deriving DecidableEq, Repr

/-- A span that a node claims for a region. -/
structure Mark where
  region : Region
  span : Span
  deriving DecidableEq, Repr

/-- The kinds of nodes that are text as it stands. -/
def NodeKind.isProse : NodeKind → Bool
  | text | inlineCode | inlineMath | code _ | math | thematicBreak => true
  | _ => false

/-- The spans that a walk collects, as marks. -/
def FoundSpans.marks (f : FoundSpans) : List Mark :=
  f.frontmatter.map (fun r => ⟨.frontmatter, r.span⟩) ++ f.modules.map (⟨.modules, ·⟩) ++
    f.code.map (⟨.code, ·⟩)

/-- What a node marks by itself. -/
def Node.marks (n : Node) : List Mark :=
  n.ownFound.marks ++ (if n.kind.isProse then n.span.toList.map (⟨.prose, ·⟩) else [])

/-- The marks of an element: its one tag, or those before and behind its content. -/
def elementMarks (s : Span) : (content : Option Span) → List Mark
  | none => [⟨.code, s⟩]
  | some content => [⟨.code, ⟨s.start, content.start⟩⟩, ⟨.code, ⟨content.stop, s.stop⟩⟩]

/-- The marks of an expression. -/
def expressionMarks (s : Span) (e : Expression) : List Mark :=
  if e.isEmpty then
    [⟨.modules, e.body⟩, ⟨.code, ⟨s.start, e.body.start⟩⟩, ⟨.code, ⟨e.body.stop, s.stop⟩⟩]
  else [⟨.code, s⟩]

section Marks

variable {kind : NodeKind} (s : Span) (nodes : List Node)

theorem marks_element {e : Element} (h : kind.element? = some e) :
    (Node.mk kind (some s) nodes).marks = elementMarks s (Node.mk kind (some s) nodes).childrenSpan := by
  cases kind with
  | blockElement e | inlineElement e =>
    simp only [Node.marks, Node.ownFound, Node.span, Option.elim, FoundSpans.ofNode, Node.kind]
    split <;> simp [*, FoundSpans.marks, elementMarks, NodeKind.isProse]
  | _ => cases h

theorem marks_expression {e : Expression} (h : kind.expression? = some e) :
    (Node.mk kind (some s) nodes).marks = expressionMarks s e := by
  cases kind with
  | blockExpression e' | inlineExpression e' =>
    cases h
    simp only [Node.marks, Node.ownFound, Node.span, Option.elim, FoundSpans.ofNode, Node.kind,
      expressionMarks]
    split <;> simp [FoundSpans.marks, NodeKind.isProse]
  | _ => cases h

end Marks

/-- The marks lie between two offsets of the text and have no byte in common. -/
structure Marked (cs : List Char) (lo hi : Nat) (marks : List Mark) : Prop where
  inText : ∀ m ∈ marks, m.span.InText cs
  within : ∀ m ∈ marks, lo ≤ m.span.start ∧ m.span.stop ≤ hi
  apart : marks.Pairwise fun m m' => m.span.Disjoint m'.span

namespace Marked

variable {cs : List Char} {lo hi : Nat} {ms ns : List Mark}

theorem nil : Marked cs lo hi [] := ⟨by simp, by simp, .nil⟩

theorem single {a b : Cursor} (region : Region) (ha : a.On cs) (hab : a.Reaches b) :
    Marked cs a.offset b.offset [⟨region, a.spanTo b.offset⟩] :=
  ⟨by simpa using Span.inText_spanTo ha hab, by simp [spanTo], by simp⟩

/-- Marks that come one after the other. -/
theorem append {mid : Nat} (h : Marked cs lo mid ms) (h' : Marked cs mid hi ns) (hlo : lo ≤ mid)
    (hhi : mid ≤ hi) : Marked cs lo hi (ms ++ ns) where
  inText := List.forall_mem_append.mpr ⟨h.inText, h'.inText⟩
  within := by
    refine List.forall_mem_append.mpr ⟨fun m hm => ?_, fun m hm => ?_⟩
    · have := h.within m hm
      omega
    · have := h'.within m hm
      omega
  apart := by
    refine List.pairwise_append.mpr ⟨h.apart, h'.apart, fun m hm n hn => Span.disjoint_of_le ?_⟩
    have := (h.within m hm).2
    have := (h'.within n hn).1
    omega

theorem perm (h : Marked cs lo hi ms) (hp : ms.Perm ns) : Marked cs lo hi ns where
  inText := fun m hm => h.inText m (hp.mem_iff.mpr hm)
  within := fun m hm => h.within m (hp.mem_iff.mpr hm)
  apart := hp.pairwise h.apart fun hst => hst.symm

end Marked

/-! ## The marks of a tree -/

section Tree

variable {cs : List Char} {p : Char → Bool} {a b c d x y : Cursor} {kind : NodeKind} {nodes : List Node}

/-- Nodes stand from the start of the first one on. -/
theorem Laid.fromFirst (h : Laid p c nodes d) (hne : nodes ≠ []) :
    ∃ x, c.Reaches x ∧ Laid p x nodes d ∧ nodes.findSome? Node.start? = some x.offset := by
  cases h with
  | nil => exact absurd rfl hne
  | @cons _ a _ _ _ _ _ hgap _ hab hspan hrest =>
    exact ⟨a, hgap.reaches, .cons (.refl a) (by simp) hab hspan hrest, by simp [Node.start?, hspan, spanTo]⟩

/-- Nodes stand up to the stop of the last one. -/
theorem Laid.upToLast (h : Laid p c nodes d) (hne : nodes ≠ []) :
    ∃ y, y.Reaches d ∧ Laid p c nodes y ∧ nodes.reverse.findSome? Node.stop? = some y.offset := by
  induction h with
  | nil => exact absurd rfl hne
  | @cons _ _ b _ _ _ nodes hgap hp hab hspan hrest ih =>
    by_cases hnodes : nodes = []
    · subst hnodes
      exact ⟨b, hrest.reaches, .cons hgap hp hab hspan (.nil (.refl b) (by simp)),
        by simp [Node.stop?, hspan, spanTo]⟩
    · obtain ⟨y, hy, hlaid, hlast⟩ := ih hnodes
      exact ⟨y, hy, .cons hgap hp hab hspan hlaid, by simp [List.findSome?_append, hlast]⟩

/-- The marks of an element, whatever is between its tags. -/
theorem marked_element (ha : a.On cs) (hab : a.Reaches b) (hax : a.Reaches x) (hlaid : Laid p x nodes y)
    (hyb : y.Reaches b)
    (hnodes : ∀ {c d : Cursor}, Laid p c nodes d →
      Marked cs c.offset d.offset ((preorderAll nodes).flatMap Node.marks)) :
    Marked cs a.offset b.offset
      (elementMarks (a.spanTo b.offset) (Node.mk kind (some (a.spanTo b.offset)) nodes).childrenSpan ++
        (preorderAll nodes).flatMap Node.marks) := by
  by_cases hne : nodes = []
  · subst hne
    simpa [Node.childrenSpan, Node.children, elementMarks, preorderAll] using .single .code ha hab
  · obtain ⟨x', hx', hlaid', hfirst⟩ := hlaid.fromFirst hne
    obtain ⟨y', hy', hlaid'', hlast⟩ := hlaid'.upToLast hne
    have hcontent : (Node.mk kind (some (a.spanTo b.offset)) nodes).childrenSpan =
        some (x'.spanTo y'.offset) := by
      simp [Node.childrenSpan, Node.children, hfirst, hlast, spanTo]
    have hax' := hax.trans hx'
    have hyb' := hy'.trans hyb
    have hx := ha.reaches hax'
    have hinner := hnodes hlaid''
    have hopen : Marked cs a.offset x'.offset [⟨.code, a.spanTo x'.offset⟩] := .single .code ha hax'
    have hclose : Marked cs y'.offset b.offset [⟨.code, y'.spanTo b.offset⟩] :=
      .single .code (hx.reaches hlaid''.reaches) hyb'
    have hall := (hopen.append hinner hax'.le hlaid''.reaches.le).append hclose
      (hax'.trans hlaid''.reaches).le hyb'.le
    rw [hcontent]
    exact hall.perm ((List.perm_append_singleton _ _).cons _)

/-- An expression is one mark, or its body and its braces are. -/
theorem marked_expression (ha : a.On cs) (hopen : a.Path ['\x7b'] x) (hxy : x.Reaches y)
    (hclose : y.Path ['\x7d'] b) (isEmpty : Bool) :
    Marked cs a.offset b.offset (expressionMarks (a.spanTo b.offset) ⟨x.spanTo y.offset, isEmpty⟩) := by
  have hax := hopen.reaches
  have hyb := hclose.reaches
  have hx := ha.reaches hax
  unfold expressionMarks
  split
  · have hbraces : Marked cs a.offset x.offset [⟨.code, a.spanTo x.offset⟩] := .single .code ha hax
    have hbody : Marked cs x.offset y.offset [⟨.modules, x.spanTo y.offset⟩] := .single .modules hx hxy
    have hend : Marked cs y.offset b.offset [⟨.code, y.spanTo b.offset⟩] :=
      .single .code (hx.reaches hxy) hyb
    have hall := (hbraces.append hbody hax.le hxy.le).append hend (hax.trans hxy).le hyb.le
    exact hall.perm (List.Perm.swap _ _ _)
  · exact .single .code ha (hax.trans (hxy.trans hyb))

/-- A node whose children are marked is marked with them. -/
theorem Shape.marked (h : Shape a b kind nodes) (ha : a.On cs) (hab : a.Reaches b)
    (hnodes : ∀ {p : Char → Bool} {c d : Cursor}, Laid p c nodes d →
      Marked cs c.offset d.offset ((preorderAll nodes).flatMap Node.marks)) :
    Marked cs a.offset b.offset ((Node.mk kind (some (a.spanTo b.offset)) nodes).marks ++
      (preorderAll nodes).flatMap Node.marks) := by
  have hlaid := h.laid hab
  cases h with
  | root hlaid => exact hnodes hlaid
  | moduleBlock _ hlaid => exact hnodes hlaid
  | heading hlaid => exact hnodes hlaid
  | paragraph htiled => exact hnodes htiled.laid
  | frontmatter => exact .single .frontmatter ha hab
  | moduleStatement => exact .single .modules ha hab
  | code | inlineCode | math | inlineMath | thematicBreak | text => exact .single .prose ha hab
  | blockTag | inlineTag =>
    rw [marks_element _ _ rfl]
    exact marked_element ha hab (.refl a) hlaid (.refl b) hnodes
  | blockElement hopen hlaid hclose =>
    rw [marks_element _ _ rfl]
    exact marked_element ha hab (Tag.reaches_read hopen) hlaid (Tag.reaches_read hclose) hnodes
  | inlineElement hopen htiled hclose =>
    rw [marks_element _ _ rfl]
    exact marked_element ha hab (Tag.reaches_read hopen) htiled.laid (Tag.reaches_read hclose) hnodes
  | blockExpression hopen hxy hclose | inlineExpression hopen hxy hclose =>
    rw [marks_expression _ _ rfl]
    simpa [preorderAll] using marked_expression ha hopen hxy hclose _

end Tree

mutual

/-- The marks of a placed tree lie in its span, and no two have a byte in common. -/
theorem marked_preorder {cs : List Char} : (n : Node) → (∀ m ∈ n.preorder, Placed cs m) →
    ∀ s, n.span = some s → Marked cs s.start s.stop (n.preorder.flatMap Node.marks)
  | .mk kind span nodes, h, s, hs => by
    obtain ⟨hnode, hnodes⟩ := forall_mem_preorder.mp h
    obtain ⟨a, b, ha, hab, hspan, hshape⟩ := hnode
    have heq := hs.symm.trans hspan
    cases heq
    simp only [Node.span] at hspan
    subst hspan
    rw [Node.preorder, List.flatMap_cons]
    exact hshape.marked ha hab fun hlaid => marked_preorderAll nodes hnodes hlaid

theorem marked_preorderAll {cs : List Char} {p : Char → Bool} {c d : Cursor} : (nodes : List Node) →
    (∀ m ∈ preorderAll nodes, Placed cs m) → Laid p c nodes d →
    Marked cs c.offset d.offset ((preorderAll nodes).flatMap Node.marks)
  | [], _, _ => .nil
  | n :: nodes, h, hlaid => by
    cases hlaid with
    | cons hgap _ hab hspan hrest =>
      obtain ⟨hn, hnodes⟩ := forall_mem_preorderAll_cons.mp h
      have hfirst := marked_preorder n hn _ hspan
      have hlater := marked_preorderAll nodes hnodes hrest
      rw [preorderAll, List.flatMap_append]
      have hall := hfirst.append hlater hab.le hrest.reaches.le
      simpa using Marked.nil.append hall hgap.le (hab.trans hrest.reaches).le

end

end Mdx

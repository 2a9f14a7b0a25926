/-
The spans of a tree nest: every node has one, it lies in the text and stands
between characters, the spans of its children lie inside it and follow each
other without overlap. So do the other ranges that a node keeps: the value of
front matter, the body of an expression, the attributes of a tag.
-/
import Mdx.Proofs.Text.Span
import Mdx.Proofs.Tree.Document

namespace Mdx

open Cursor

/-- The span invariant at one node. -/
structure Nested (cs : List Char) (n : Node) (s : Span) : Prop where
  span : n.span = some s
  inText : s.InText cs
  children : ∀ m ∈ n.children, ∃ t, m.span = some t ∧ t.Within s
  siblings : n.children.Pairwise fun m m' =>
    ∀ t t', m.span = some t → m'.span = some t' → t.stop ≤ t'.start
  frontmatter : ∀ dialect value, n.kind = .frontmatter dialect value → value.InText cs ∧ value.Within s
  expression : ∀ e, n.kind.expression? = some e → s.start + 2 ≤ s.stop ∧
    e.body = ⟨s.start + 1, s.stop - 1⟩ ∧ charAt? cs s.start = some '\x7b' ∧
    charAt? cs (s.stop - 1) = some '\x7d'
  attributes : ∀ e, n.kind.element? = some e → ∀ a ∈ e.attributes, ∀ r ∈ a.ranges,
    r.InText cs ∧ r.Within s

variable {cs : List Char} {a b : Cursor}

theorem Cursor.Holds.inText {s : Span} (ha : a.On cs) (h : a.Holds s b) :
    s.InText cs ∧ s.Within (a.spanTo b.offset) := by
  obtain ⟨x, y, hx, hxy, hy, rfl⟩ := h
  exact ⟨Span.inText_spanTo (ha.reaches hx) hxy, hx.le, hy.le⟩

/-- An expression is its braces and what is between them. -/
theorem nested_expression {x y : Cursor} (ha : a.On cs) (hopen : a.Path ['\x7b'] x) (hxy : x.Reaches y)
    (hclose : y.Path ['\x7d'] b) : a.offset + 2 ≤ b.offset ∧
      x.spanTo y.offset = ⟨a.offset + 1, b.offset - 1⟩ ∧ charAt? cs a.offset = some '\x7b' ∧
      charAt? cs (b.offset - 1) = some '\x7d' := by
  have hx : x.offset = a.offset + 1 := hopen.offset
  have hb : b.offset = y.offset + 1 := hclose.offset
  have hle := hxy.le
  have hy : b.offset - 1 = y.offset := by omega
  refine ⟨by omega, ?_, ?_, ?_⟩
  · rw [spanTo, hx, hy]
  · exact charAt?_offset ha hopen.rest
  · rw [hy]
    exact charAt?_offset (ha.reaches (hopen.reaches.trans hxy)) hclose.rest

theorem nested_attributes {tag : Tag} {x : Cursor} (ha : a.On cs) (h : Tag.read a = .ok (tag, x))
    (hx : x.Reaches b) : ∀ t ∈ tag.element.attributes, ∀ r ∈ t.ranges,
      r.InText cs ∧ r.Within (a.spanTo b.offset) := by
  intro t ht r hr
  exact (((Tag.read_ok h).2.2 t ht r hr).widen (.refl a) hx).inText ha

variable {kind : NodeKind} {nodes : List Node}

theorem Shape.value {dialect : Dialect} {value : Span} (h : Shape a b (.frontmatter dialect value) nodes)
    (ha : a.On cs) : value.InText cs ∧ value.Within (a.spanTo b.offset) := by
  cases h with
  | frontmatter hholds => exact hholds.inText ha

theorem Shape.expression (h : Shape a b kind nodes) (ha : a.On cs) {e : Expression}
    (he : kind.expression? = some e) : a.offset + 2 ≤ b.offset ∧
      e.body = ⟨a.offset + 1, b.offset - 1⟩ ∧ charAt? cs a.offset = some '\x7b' ∧
      charAt? cs (b.offset - 1) = some '\x7d' := by
  cases h with
  | blockExpression hopen hxy hclose =>
    cases he
    exact nested_expression ha hopen hxy hclose
  | inlineExpression hopen hxy hclose =>
    cases he
    exact nested_expression ha hopen hxy hclose
  | _ => cases he

theorem Shape.attributes (h : Shape a b kind nodes) (ha : a.On cs) {e : Element}
    (he : kind.element? = some e) :
    ∀ t ∈ e.attributes, ∀ r ∈ t.ranges, r.InText cs ∧ r.Within (a.spanTo b.offset) := by
  cases h with
  | blockTag hread =>
    cases he
    exact nested_attributes ha hread (.refl b)
  | blockElement hread hlaid hclose =>
    cases he
    exact nested_attributes ha hread (hlaid.reaches.trans (Tag.reaches_read hclose))
  | inlineTag hread =>
    cases he
    exact nested_attributes ha hread (.refl b)
  | inlineElement hread htiled hclose =>
    cases he
    exact nested_attributes ha hread (htiled.laid.reaches.trans (Tag.reaches_read hclose))
  | _ => cases he

/-- A placed node satisfies the span invariant. -/
theorem Placed.nested {n : Node} (h : Placed cs n) : ∃ s, Nested cs n s := by
  obtain ⟨a, b, ha, hab, hspan, hshape⟩ := h
  have hlaid := hshape.laid hab
  refine ⟨_, hspan, Span.inText_spanTo ha hab, fun m hm => ?_, hlaid.pairwise, ?_, ?_, ?_⟩
  · obtain ⟨t, ht, hholds⟩ := hlaid.holds hm
    exact ⟨t, ht, (hholds.inText ha).2⟩
  · intro dialect value hkind
    rw [hkind] at hshape
    exact hshape.value ha
  · intro e he
    exact hshape.expression ha he
  · intro e he
    exact hshape.attributes ha he

mutual

/-- What is below a node lies in its span. -/
theorem Node.within_of_mem_preorder : (n : Node) → (∀ m ∈ n.preorder, Placed cs m) → ∀ s, n.span = some s →
    ∀ m ∈ n.preorder, ∀ t, m.span = some t → t.Within s
  | .mk kind span nodes, h, s, hs => by
    obtain ⟨hnode, hnodes⟩ := forall_mem_preorder.mp h
    obtain ⟨u, hu⟩ := hnode.nested
    cases hu.span.symm.trans hs
    refine forall_mem_preorder.mpr ⟨fun t ht => ?_, within_of_mem_preorderAll nodes hnodes hu.children⟩
    cases ht.symm.trans hs
    exact .refl s

theorem within_of_mem_preorderAll {s : Span} : (nodes : List Node) → (∀ m ∈ preorderAll nodes, Placed cs m) →
    (∀ n ∈ nodes, ∃ t, n.span = some t ∧ t.Within s) → ∀ m ∈ preorderAll nodes, ∀ t, m.span = some t → t.Within s
  | [], _, _ => by simp [preorderAll]
  | n :: nodes, h, hs => by
    obtain ⟨hn, hnodes⟩ := forall_mem_preorderAll_cons.mp h
    obtain ⟨⟨u, hu, hw⟩, hlater⟩ := List.forall_mem_cons.mp hs
    exact forall_mem_preorderAll_cons.mpr ⟨fun m hm t ht => (n.within_of_mem_preorder hn u hu m hm t ht).trans hw,
      within_of_mem_preorderAll nodes hnodes hlater⟩

end

/-- **The span invariant.** In the tree of a document, every node has a span in the text between two
characters, the spans of its children are inside it and in order, and so are the other ranges that
it keeps. -/
theorem parse_nested {options : ParseOptions} {root : Node} (h : parse options cs = .ok root) :
    ∀ n ∈ root.preorder, ∃ s, Nested cs n s :=
  fun n hn => ((parse_ok h).placed n hn).nested

/-- A document with front matter, and an expression in an element. -/
theorem parse_nested_element : ∃ root,
    parse .standard "+++\na\n+++\n <A b=\x7bc\x7d>\n\x7bd\x7d é\n </A>".toList = .ok root ∧
      ∀ n ∈ root.preorder,
        ∃ s, Nested "+++\na\n+++\n <A b=\x7bc\x7d>\n\x7bd\x7d é\n </A>".toList n s := by
  have hparses : (parse .standard
      "+++\na\n+++\n <A b=\x7bc\x7d>\n\x7bd\x7d é\n </A>".toList).toOption.isSome = true := by
    decide +kernel
  obtain ⟨root, h⟩ := exists_ok hparses
  exact ⟨root, h, parse_nested h⟩

end Mdx

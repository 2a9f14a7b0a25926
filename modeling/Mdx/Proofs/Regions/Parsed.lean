/-
The regions of a document that parses. Each byte is in at most one of them: no
byte is both module code and embedded code, and none of the front matter is
either; prose is in none. The spans they are made of stand between characters of
the text.
-/
import Mdx.Proofs.RangeSet
import Mdx.Proofs.Regions.Marks
import Mathlib.Data.List.Pairwise

namespace Mdx

open Cursor

/-- The regions lie in the text and share no byte. -/
structure Regions.Sound (cs : List Char) (r : Regions) : Prop where
  modules_inText : ∀ s ∈ r.modules.ranges, s.InText cs
  code_inText : ∀ s ∈ r.code.ranges, s.InText cs
  frontmatter_inText : ∀ f ∈ r.frontmatter, f.span.InText cs
  value_inText : ∀ f ∈ r.frontmatter, f.value.InText cs ∧ f.value.Within f.span
  modules_sorted : r.modules.Sorted
  code_sorted : r.code.Sorted
  modules_code : ∀ o, r.modules.contains o = true → r.code.contains o = false
  frontmatter_modules : ∀ f ∈ r.frontmatter, ∀ o, f.span.contains o = true → r.modules.contains o = false
  frontmatter_code : ∀ f ∈ r.frontmatter, ∀ o, f.span.contains o = true → r.code.contains o = false
  frontmatter_apart : r.frontmatter.Pairwise fun f g => f.span.Disjoint g.span

section Fields

theorem field_frontmatter : FoundSpans.Field FoundSpans.frontmatter := ⟨rfl, fun _ _ => rfl⟩

theorem field_modules : FoundSpans.Field FoundSpans.modules := ⟨rfl, fun _ _ => rfl⟩

theorem field_code : FoundSpans.Field FoundSpans.code := ⟨rfl, fun _ _ => rfl⟩

theorem mem_marks_frontmatter {f : FoundSpans} {r : FrontmatterRegion} (h : r ∈ f.frontmatter) :
    ⟨.frontmatter, r.span⟩ ∈ f.marks := by
  simp only [FoundSpans.marks, List.mem_append, List.mem_map]
  exact .inl (.inl ⟨r, h, rfl⟩)

theorem mem_marks_modules {f : FoundSpans} {s : Span} (h : s ∈ f.modules) : ⟨.modules, s⟩ ∈ f.marks := by
  simp only [FoundSpans.marks, List.mem_append, List.mem_map]
  exact .inl (.inr ⟨s, h, rfl⟩)

theorem mem_marks_code {f : FoundSpans} {s : Span} (h : s ∈ f.code) : ⟨.code, s⟩ ∈ f.marks := by
  simp only [FoundSpans.marks, List.mem_append, List.mem_map]
  exact .inr ⟨s, h, rfl⟩

variable {n : Node}

/-- What is collected from a tree is marked by one of its nodes. -/
theorem mem_preorder_marks {α : Type} {field : FoundSpans → List α} (hf : FoundSpans.Field field)
    {mark : α → Mark} (hmark : ∀ {f x}, x ∈ field f → mark x ∈ f.marks)
    (hspans : ∀ m ∈ n.preorder, m.span ≠ none) {x : α} (hx : x ∈ field n.found) :
    mark x ∈ n.preorder.flatMap Node.marks := by
  obtain ⟨m, hm, hxm⟩ := (Node.mem_found hf hspans).mp hx
  exact List.mem_flatMap.mpr ⟨m, hm, List.mem_append_left _ (hmark hxm)⟩

/-- A node adds front matter if it is front matter. -/
theorem mem_ownFound_frontmatter {f : FrontmatterRegion} : f ∈ n.ownFound.frontmatter ↔
    n.kind = .frontmatter f.dialect f.value ∧ n.span = some f.span := by
  obtain ⟨kind, span, nodes⟩ := n
  cases span with
  | none => simp [Node.ownFound, Node.span]
  | some span =>
    obtain ⟨dialect, fspan, value⟩ := f
    simp only [Node.ownFound, Node.span, Option.elim, FoundSpans.ofNode, Node.kind]
    cases kind with
    | frontmatter dialect' value' =>
      simp only [List.mem_singleton, FrontmatterRegion.mk.injEq, NodeKind.frontmatter.injEq,
        Option.some.injEq]
      constructor
      · rintro ⟨rfl, rfl, rfl⟩
        exact ⟨⟨rfl, rfl⟩, rfl⟩
      · rintro ⟨⟨rfl, rfl⟩, rfl⟩
        exact ⟨rfl, rfl, rfl⟩
    | blockElement | inlineElement | blockExpression | inlineExpression => simp only; split <;> simp
    | _ => simp

end Fields

/-- Two marks have no byte in common. -/
theorem Marked.disjoint_of_ne {cs : List Char} {lo hi : Nat} {marks : List Mark} (h : Marked cs lo hi marks)
    {m m' : Mark} (hm : m ∈ marks) (hm' : m' ∈ marks) (hne : m ≠ m') : m.span.Disjoint m'.span := by
  have : Std.Symm fun x y : Mark => x.span.Disjoint y.span := ⟨fun _ _ hxy => hxy.symm⟩
  exact h.apart.forall hm hm' hne

/-- Marks for two regions have no byte in common. -/
theorem Marked.disjoint {cs : List Char} {lo hi : Nat} {marks : List Mark} (h : Marked cs lo hi marks)
    {m m' : Mark} (hm : m ∈ marks) (hm' : m' ∈ marks) (hne : m.region ≠ m'.region) :
    m.span.Disjoint m'.span :=
  h.disjoint_of_ne hm hm' fun heq => hne (congrArg Mark.region heq)

section Parsed

variable {cs : List Char} {root : Node}

theorem span_ne_none_of_placed (h : ∀ m ∈ root.preorder, Placed cs m) :
    ∀ m ∈ root.preorder, m.span ≠ none := by
  intro m hm hnone
  obtain ⟨_, _, _, _, hspan, _⟩ := h m hm
  rw [hnone] at hspan
  cases hspan

theorem mem_frontmatter_ofTree (h : ∀ m ∈ root.preorder, Placed cs m) {f : FrontmatterRegion} :
    f ∈ (Regions.ofTree root).frontmatter ↔
      ∃ n ∈ root.preorder, n.kind = .frontmatter f.dialect f.value ∧ n.span = some f.span := by
  simp only [Regions.ofTree_eq, Node.mem_found field_frontmatter (span_ne_none_of_placed h),
    mem_ownFound_frontmatter]

/-- Of two sets of spans from two regions only one contains a byte. -/
theorem contains_eq_false_of_marked {marks : List Mark} {lo hi o : Nat} (h : Marked cs lo hi marks)
    {r r' : Region} (hne : r ≠ r') {spans : List Span} (hspans : ∀ s ∈ spans, ⟨r', s⟩ ∈ marks) {s : Span}
    (hs : ⟨r, s⟩ ∈ marks) (ho : s.contains o = true) : (RangeSet.ofList spans).contains o = false := by
  rw [← Bool.not_eq_true, RangeSet.contains_ofList]
  rintro ⟨t, ht, hto⟩
  exact h.disjoint hs (hspans t ht) hne o ⟨ho, hto⟩

/-- The spans of front matter in a tree have no byte in common. -/
theorem frontmatter_pairwise {lo hi : Nat} (hspans : ∀ m ∈ root.preorder, m.span ≠ none)
    (h : Marked cs lo hi (root.preorder.flatMap Node.marks)) :
    root.found.frontmatter.Pairwise fun f g => f.span.Disjoint g.span := by
  obtain ⟨hown, hacross⟩ := List.pairwise_flatMap.mp h.apart
  rw [Node.found_eq_flatMap field_frontmatter root hspans, List.pairwise_flatMap]
  refine ⟨fun m hm => ?_, hacross.imp fun {m m'} hmm' f hf g hg => ?_⟩
  · -- The front matter of a node comes first among its marks.
    have hpart := List.pairwise_append.mp (List.pairwise_append.mp (List.pairwise_append.mp (hown m hm)).1).1
    have hfront := hpart.1
    rwa [List.pairwise_map] at hfront
  · exact hmm' _ (List.mem_append_left _ (mem_marks_frontmatter hf)) _
      (List.mem_append_left _ (mem_marks_frontmatter hg))

/-- The regions of a placed tree. -/
theorem sound_ofTree {s : Span} (h : ∀ m ∈ root.preorder, Placed cs m) (hs : root.span = some s) :
    (Regions.ofTree root).Sound cs := by
  have hspans := span_ne_none_of_placed h
  have hmarked := marked_preorder root h s hs
  have hfront : ∀ f ∈ root.found.frontmatter, ⟨.frontmatter, f.span⟩ ∈ root.preorder.flatMap Node.marks :=
    fun _ hf => mem_preorder_marks field_frontmatter mem_marks_frontmatter hspans hf
  have hmod : ∀ s ∈ root.found.modules, ⟨.modules, s⟩ ∈ root.preorder.flatMap Node.marks :=
    fun _ hs => mem_preorder_marks field_modules mem_marks_modules hspans hs
  have hcode : ∀ s ∈ root.found.code, ⟨.code, s⟩ ∈ root.preorder.flatMap Node.marks :=
    fun _ hs => mem_preorder_marks field_code mem_marks_code hspans hs
  rw [Regions.ofTree_eq]
  exact
    { modules_inText := fun s hs => hmarked.inText _ (hmod s (RangeSet.mem_ranges_ofList.mp hs))
      code_inText := fun s hs => hmarked.inText _ (hcode s (RangeSet.mem_ranges_ofList.mp hs))
      frontmatter_inText := fun f hf => hmarked.inText _ (hfront f hf)
      value_inText := by
        intro f hf
        obtain ⟨m, hm, hfm⟩ := (Node.mem_found field_frontmatter hspans).mp hf
        obtain ⟨hkind, hspan⟩ := mem_ownFound_frontmatter.mp hfm
        obtain ⟨s, hnested⟩ := (h m hm).nested
        have heq : f.span = s := Option.some.inj (hspan.symm.trans hnested.span)
        rw [heq]
        exact hnested.frontmatter _ _ hkind
      modules_sorted := RangeSet.sorted_ofList _
      code_sorted := RangeSet.sorted_ofList _
      modules_code := by
        intro o ho
        obtain ⟨s, hs, hso⟩ := RangeSet.contains_ofList.mp ho
        exact contains_eq_false_of_marked hmarked (by decide) hcode (hmod s hs) hso
      frontmatter_modules := fun f hf o ho =>
        contains_eq_false_of_marked hmarked (by decide) hmod (hfront f hf) ho
      frontmatter_code := fun f hf o ho =>
        contains_eq_false_of_marked hmarked (by decide) hcode (hfront f hf) ho
      frontmatter_apart := frontmatter_pairwise hspans hmarked }

/-- A byte of prose is in none of the regions of a placed tree. -/
theorem prose_apart {s t : Span} {n : Node} {o : Nat} (h : ∀ m ∈ root.preorder, Placed cs m)
    (hs : root.span = some s) (hn : n ∈ root.preorder) (hkind : n.kind.isProse = true)
    (ht : n.span = some t) (ho : t.contains o = true) :
    (Regions.ofTree root).modules.contains o = false ∧ (Regions.ofTree root).code.contains o = false ∧
      ∀ f ∈ (Regions.ofTree root).frontmatter, f.span.contains o = false := by
  have hspans := span_ne_none_of_placed h
  have hmarked := marked_preorder root h s hs
  have hprose : ⟨.prose, t⟩ ∈ root.preorder.flatMap Node.marks := by
    refine List.mem_flatMap.mpr ⟨n, hn, List.mem_append_right _ ?_⟩
    rw [if_pos hkind, ht]
    exact List.mem_singleton_self _
  rw [Regions.ofTree_eq]
  refine ⟨?_, ?_, fun f hf => ?_⟩
  · exact contains_eq_false_of_marked hmarked (by decide)
      (fun _ hx => mem_preorder_marks field_modules mem_marks_modules hspans hx) hprose ho
  · exact contains_eq_false_of_marked hmarked (by decide)
      (fun _ hx => mem_preorder_marks field_code mem_marks_code hspans hx) hprose ho
  · have hfront := mem_preorder_marks field_frontmatter mem_marks_frontmatter hspans hf
    exact Bool.eq_false_iff.mpr fun hfo => hmarked.disjoint hprose hfront (by simp) o ⟨ho, hfo⟩

/-- The regions of a document that parses. -/
theorem sound_of_parse {options : ParseOptions} (h : parse options cs = .ok root) :
    (Regions.ofTree root).Sound cs := by
  obtain ⟨-, hspan, -, hplaced⟩ := parse_ok h
  exact sound_ofTree hplaced hspan

end Parsed

/-! ## Regions without a common byte -/

/-- No byte is in two regions of the tree, and none of a node that is text as it stands is in any. -/
structure Regions.Apart (root : Node) (r : Regions) : Prop where
  modules_code : r.modules.intersects r.code = false ∧
    ∀ o, ¬ (r.modules.contains o = true ∧ r.code.contains o = true)
  frontmatter : ∀ f ∈ r.frontmatter, ∀ o, f.span.contains o = true →
    r.modules.contains o = false ∧ r.code.contains o = false
  frontmatter_apart : r.frontmatter.Pairwise fun f g => f.span.Disjoint g.span
  prose : ∀ n ∈ root.preorder, n.kind.isProse = true → ∃ s, n.span = some s ∧
    ∀ o, s.contains o = true → r.modules.contains o = false ∧ r.code.contains o = false ∧
      ∀ f ∈ r.frontmatter, f.span.contains o = false

/-- **Regions are apart.** In a document that parses no byte is both module code and embedded code,
none of the front matter is either, and no byte of text, code or math as prose has them is in any
region. -/
theorem parse_regions_apart {options : ParseOptions} {cs : List Char} {root : Node}
    (h : parse options cs = .ok root) : (Regions.ofTree root).Apart root := by
  have hsound := sound_of_parse h
  have hcommon : ∀ o, ¬ ((Regions.ofTree root).modules.contains o = true ∧
      (Regions.ofTree root).code.contains o = true) := by
    rintro o ⟨hmodules, hcode⟩
    rw [hsound.modules_code o hmodules] at hcode
    cases hcode
  obtain ⟨-, hspan, -, hplaced⟩ := parse_ok h
  refine ⟨⟨?_, hcommon⟩, fun f hf o ho => ?_, hsound.frontmatter_apart, fun n hn hkind => ?_⟩
  · rw [← Bool.not_eq_true, RangeSet.intersects_iff hsound.modules_sorted hsound.code_sorted]
    rintro ⟨o, ho⟩
    exact hcommon o ho
  · exact ⟨hsound.frontmatter_modules f hf o ho, hsound.frontmatter_code f hf o ho⟩
  · obtain ⟨s, hs⟩ := Option.ne_none_iff_exists'.mp (span_ne_none_of_placed hplaced n hn)
    exact ⟨s, hs, fun o ho => prose_apart hplaced hspan hn hkind hs ho⟩

/-- A document with front matter, a module, an empty expression in an element, and text. -/
theorem parse_regions_apart_element : ∃ root,
    parse .standard "---\na\n---\nimport b\n\nc <i>d \x7b/**/\x7d</i>".toList = .ok root ∧
      (Regions.ofTree root).Apart root := by
  have hparses : (parse .standard
      "---\na\n---\nimport b\n\nc <i>d \x7b/**/\x7d</i>".toList).toOption.isSome = true := by
    decide +kernel
  obtain ⟨root, h⟩ := exists_ok hparses
  exact ⟨root, h, parse_regions_apart h⟩

/-! ## What is not prose -/

theorem Regions.nonProse_sorted (r : Regions) : r.nonProse.Sorted := RangeSet.sorted_union _ _

namespace Regions.Sound

variable {cs : List Char} {r : Regions}

/-- A byte is not prose if it is in one of the other regions. -/
theorem contains_nonProse (h : r.Sound cs) {o : Nat} : r.nonProse.contains o = true ↔
    r.modules.contains o = true ∨ r.code.contains o = true ∨
      ∃ f ∈ r.frontmatter, f.span.contains o = true := by
  rw [nonProse, RangeSet.contains_union (RangeSet.sorted_union _ _) (RangeSet.sorted_ofList _),
    RangeSet.contains_union h.modules_sorted h.code_sorted, RangeSet.contains_ofList, or_assoc]
  refine or_congr_right (or_congr_right ⟨?_, ?_⟩)
  · rintro ⟨s, hs, ho⟩
    obtain ⟨f, hf, rfl⟩ := List.mem_map.mp hs
    exact ⟨f, hf, ho⟩
  · rintro ⟨f, hf, ho⟩
    exact ⟨f.span, List.mem_map.mpr ⟨f, hf, rfl⟩, ho⟩

theorem nonProse_inText (h : r.Sound cs) : ∀ s ∈ r.nonProse.ranges, s.InText cs := by
  intro s hs
  rw [nonProse, RangeSet.mem_ranges_union, RangeSet.mem_ranges_union, RangeSet.mem_ranges_ofList,
    List.mem_map] at hs
  rcases hs with (hs | hs) | ⟨f, hf, rfl⟩
  · exact h.modules_inText s hs
  · exact h.code_inText s hs
  · exact h.frontmatter_inText f hf

end Regions.Sound

end Mdx

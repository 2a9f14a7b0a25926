/-
The tags of a tree pair up. An element that does not close itself starts with a
tag that opens it and stops with a tag of the same name that closes it, and its
children stand between the two. The tags of a block element stand alone on their
lines.

Tags are paired by two readers, that of lines and that of inline content. For
inline elements the pairing is in the shape of the node (`Shape`) and only what
the tags are is read off the trace; for block elements the trace gives both, with
the line of the closing tag.
-/
import Mdx.Proofs.Trace.Document

namespace Mdx

open Cursor

/-- Nothing but blanks is behind the tags on their lines, and nothing but spaces and tabs before the
closing one. -/
structure AloneOnLines (cs : List Char) (opening closing : Tag) : Prop where
  behindOpening : (atOffset cs opening.span.stop).isLineBlank = true
  behindClosing : (atOffset cs closing.span.stop).isLineBlank = true
  beforeClosing : ∃ line : Cursor, line.IsLine cs ∧ line.skipIndent = atOffset cs closing.span.start

/-- The element with the span `s` is what stands between two tags, and these. -/
structure PairedTags (cs : List Char) (n : Node) (s : Span) (opening closing : Tag) : Prop where
  span : n.span = some s
  opens : Tag.read (.atOffset cs s.start) = .ok (opening, .atOffset cs opening.span.stop)
  opening_open : opening.closing = false
  element : n.kind.element? = some opening.element
  closes : Tag.read (.atOffset cs closing.span.start) = .ok (closing, .atOffset cs s.stop)
  closing_closes : closing.closing = true
  name_eq : opening.name = closing.name
  ordered : opening.span.stop ≤ closing.span.start
  stop_eq : closing.span.stop = s.stop
  children : ∀ m ∈ n.children, ∃ t, m.span = some t ∧ t.Within ⟨opening.span.stop, closing.span.start⟩
  block : ∀ e, n.kind = .blockElement e → AloneOnLines cs opening closing

variable {cs : List Char} {math : Bool} {container : Option Tag}

theorem LineOpens.closing_eq_false {line next : Cursor} {tag : Tag}
    (h : LineOpens math container line (.element tag next)) : tag.closing = false := by
  obtain ⟨hstarts, hread, -⟩ := h.tag
  exact Tag.closing_eq_false hread hstarts h.notClosing

/-- Two tags that were read, with nodes laid out between them. -/
theorem pairedTags_of_read {p : Char → Bool} {n : Node} {a x y b : Cursor} {opening closing : Tag}
    (ha : a.On cs) (hspan : n.span = some (a.spanTo b.offset))
    (helement : n.kind.element? = some opening.element) (hopen : Tag.read a = .ok (opening, x))
    (hopening : opening.closing = false)
    (hlaid : Laid p x n.children y) (hclose : Tag.read y = .ok (closing, b))
    (hclosing : closing.closing = true) (hpair : opening.closedBy closing = true)
    (hblock : ∀ e, n.kind = .blockElement e → AloneOnLines cs opening closing) :
    PairedTags cs n (a.spanTo b.offset) opening closing := by
  have hx := ha.reaches (Tag.reaches_read hopen)
  have hy := hx.reaches hlaid.reaches
  have hb := hy.reaches (Tag.reaches_read hclose)
  have hopenSpan : opening.span = a.spanTo x.offset := (Tag.read_ok hopen).2.1
  have hcloseSpan : closing.span = y.spanTo b.offset := (Tag.read_ok hclose).2.1
  refine ⟨hspan, ?_, hopening, helement, ?_, hclosing, ?_, ?_, ?_, fun m hm => ?_, hblock⟩
  · simp only [hopenSpan, spanTo]
    rw [ha.atOffset_eq, hx.atOffset_eq]
    exact hopen
  · simp only [hcloseSpan, spanTo]
    rw [hy.atOffset_eq, hb.atOffset_eq]
    exact hclose
  · simpa [Tag.closedBy] using hpair
  · rw [hopenSpan, hcloseSpan]
    exact hlaid.reaches.le
  · rw [hcloseSpan]
    rfl
  · obtain ⟨t, ht, u, v, hu, huv, hv, rfl⟩ := hlaid.holds hm
    rw [hopenSpan, hcloseSpan]
    exact ⟨_, ht, hu.le, hv.le⟩

/-- An inline element is paired by its shape; its first tag opens. -/
theorem InlineNode.pairedTags {n : Node} (h : InlineNode cs n) (hplaced : Placed cs n) {e : Element}
    (he : n.kind.element? = some e) (hself : e.selfClosing = false) :
    ∃ s opening closing, PairedTags cs n s opening closing := by
  obtain ⟨a, b, ha, -, hspan, hshape⟩ := hplaced
  obtain ⟨a', x', tag', ha', hstart, hread', htag'⟩ := h.opens e he
  have heq : a' = a := by
    refine ha'.eq_of_offset_eq ha ?_
    simpa [Node.start?, hspan, spanTo] using hstart.symm
  subst heq
  have hinline := h.inline
  generalize hkind : n.kind = kind at hshape hinline he
  generalize hchildren : n.children = children at hshape
  cases hshape with
  | inlineTag hread hself' =>
    cases he
    rw [Tag.element] at hself
    simp [hself'] at hself
  | inlineElement hread htiled hclose hclosing hpair =>
    rw [hread] at hread'
    cases hread'
    refine ⟨_, _, _, pairedTags_of_read ha hspan (by rw [hkind]; rfl) hread htag'
      (by rw [hchildren]; exact htiled.laid) hclose hclosing hpair ?_⟩
    intro e' he'
    rw [hkind] at he'
    cases he'
  | blockTag => cases hinline
  | blockElement => cases hinline
  | _ => cases he

/-- A block element is paired by its trace. -/
theorem LineOpens.pairedTags {line next after : Cursor} {tag closed : Tag} {inner : List Node}
    (h : LineOpens math container line (.element tag next)) (hline : line.StartsLine cs)
    (hinner : FlowTrace math (some tag) next.nextLine inner (some (closed, after))) :
    ∃ s opening closing, PairedTags cs
      (.branch (.blockElement tag.element) ⟨tag.span.start, closed.span.stop⟩ inner) s opening closing := by
  have hstart := h.on_start hline.on
  obtain ⟨-, hread, hblank⟩ := h.tag
  have hnext := hstart.reaches (Tag.reaches_read hread)
  obtain ⟨gap, hgap, hall⟩ := path_nextLine_of_blank hblank
  obtain ⟨last, hlast, hlaid, hend⟩ := hinner.laid (startsLine_nextLine hnext)
  cases hend with
  | closed hslash hclosing =>
    obtain ⟨_, heq, hclose, hpair, hafter⟩ := readClosing_ok hclosing
    cases heq
    obtain ⟨rest, hrest⟩ := startsWith_closing hslash
    obtain ⟨indent, hindent, hindents⟩ := path_skipIndent last
    have hbetween : Laid isBlank next inner last.skipIndent := by
      have hwhole := (Laid.before hgap hall hlaid).append (.nil hindent hindents)
      rwa [List.append_nil] at hwhole
    have hlastOn := hlast.on.reaches hindent.reaches
    have hopenSpan : tag.span = line.skipIndent.spanTo next.offset := (Tag.read_ok hread).2.1
    have hcloseSpan : closed.span = last.skipIndent.spanTo after.offset := (Tag.read_ok hclose).2.1
    have hlines : AloneOnLines cs tag closed := by
      refine ⟨?_, ?_, last, hlast.isLine ?_, ?_⟩
      · rw [hopenSpan]
        simp only [spanTo]
        rwa [hnext.atOffset_eq]
      · rw [hcloseSpan]
        simp only [spanTo]
        rwa [(hlastOn.reaches (Tag.reaches_read hclose)).atOffset_eq]
      · exact hindent.reaches.rest_ne_nil (by simp [hrest])
      · rw [hcloseSpan]
        exact hlastOn.atOffset_eq.symm
    rw [hopenSpan, hcloseSpan]
    exact ⟨_, tag, closed, pairedTags_of_read hstart rfl rfl hread h.closing_eq_false hbetween hclose
      (Tag.closing_of_slash hclose hrest) hpair fun _ _ => hlines⟩

/-- **Tags pair up.** In the tree of a document, every element that does not close itself is what
stands between an opening and a closing tag of one name, with these. -/
theorem parse_pairs_tags {options : ParseOptions} {root : Node} (h : parse options cs = .ok root) :
    ∀ n ∈ root.preorder, ∀ e, n.kind.element? = some e → e.selfClosing = false →
      ∃ s opening closing, PairedTags cs n s opening closing := by
  have hpaired : ∀ n ∈ root.preorder, Placed cs n → ∀ e, n.kind.element? = some e →
      e.selfClosing = false → ∃ s opening closing, PairedTags cs n s opening closing := by
    refine forall_mem_parse h ?_ ?_ ?_ ?_ ?_ ?_
    · intro front flow nodes _ _ _ _ e he
      cases he
    · intro dialect value span _ e he
      cases he
    · intro container line next n _ hopens _ e he
      rw [hopens.element?_eq_none] at he
      cases he
    · intro m hm hplaced e he hself
      rcases (forall_mem_preorder.mp hm).1 with hkind | hinline
      · rw [hkind] at he
        cases he
      · exact hinline.pairedTags hplaced he hself
    · intro container line next tag _ _ hself _ e he hnot
      cases he
      rw [show tag.element.selfClosing = tag.selfClosing from rfl, hself] at hnot
      cases hnot
    · intro container line next after tag closed inner hline hopens _ hinner _ e he hself
      exact hopens.pairedTags hline hinner
  intro n hn
  exact hpaired n hn ((parse_ok h).placed n hn)

/-- An inline element over two lines in a block element. -/
theorem parse_pairs_tags_nested : ∃ root n e,
    parse .standard " <A b>\nx <c\n>y</c>\n\t</A >".toList = .ok root ∧
    n ∈ root.preorder ∧ n.kind = .blockElement e ∧ e.selfClosing = false ∧
    (∃ s opening closing, PairedTags " <A b>\nx <c\n>y</c>\n\t</A >".toList n s opening closing) ∧
    ∃ m ∈ n.preorder, ∃ e, m.kind = .inlineElement e ∧ e.selfClosing = false ∧
      ∃ s opening closing, PairedTags " <A b>\nx <c\n>y</c>\n\t</A >".toList m s opening closing := by
  let m : Node := .branch (.inlineElement ⟨some "c", [], false⟩) ⟨9, 18⟩ [.leaf .text ⟨13, 14⟩]
  let n : Node := .branch (.blockElement ⟨some "A", [⟨.named "b" none, ⟨4, 5⟩⟩], false⟩) ⟨1, 25⟩
    [.branch .paragraph ⟨7, 18⟩ [.leaf .text ⟨7, 9⟩, m]]
  have h : parse .standard " <A b>\nx <c\n>y</c>\n\t</A >".toList = .ok (.branch .root ⟨0, 25⟩ [n]) := rfl
  have hn : n ∈ (Node.branch .root ⟨0, 25⟩ [n]).preorder := by
    simp [n, Node.branch, Node.preorder, preorderAll]
  have hm : m ∈ n.preorder := by simp [m, n, Node.branch, Node.leaf, Node.preorder, preorderAll]
  have hroot : m ∈ (Node.branch .root ⟨0, 25⟩ [n]).preorder := by
    simp [m, n, Node.branch, Node.leaf, Node.preorder, preorderAll]
  exact ⟨_, n, _, h, hn, rfl, rfl, parse_pairs_tags h n hn _ rfl rfl, m, hm, _, rfl, rfl,
    parse_pairs_tags h m hroot _ rfl rfl⟩

end Mdx

/-
Where hidden content starts. A span that is no prose starts with its line, at a
character that shows, behind an opening brace, or where only blanks are left of
the line (`StartsHidden`). So nothing hidden starts among the spaces and tabs
that indent a line of prose, and what starts right behind them shows
(`StartsHidden.onLine`).

Most starts are told by the node alone. What a tag starts with is not, as
`Tag.read` passes over the first character unseen: that it is an angle bracket
is read off the trace (`InlineTrace.nodeStarts`).
-/
import Mdx.Proofs.Tree.Content
import Mdx.Proofs.Tree.Statement

namespace Mdx

open Cursor

/-- How hidden content starts. -/
inductive StartsHidden (cs : List Char) (o : Nat) : Prop
  | line : o = 0 ∨ precededBy cs o '\n' = true → StartsHidden cs o
  | shows {ch : Char} : ShowsAt cs o ch → StartsHidden cs o
  | inBraces : precededBy cs o '\x7b' = true → StartsHidden cs o
  | trailing {c : Cursor} : c.On cs → c.offset = o → c.isLineBlank = true → StartsHidden cs o

/-- The tags of an element start as hidden content does: the first one with the element, and the last
one, if there is one, with the blanks before it. -/
structure TagsStart (cs : List Char) (n : Node) : Prop where
  opening : ∀ s, n.span = some s → StartsHidden cs s.start
  closing : ∀ s, n.childrenSpan = some s → StartsHidden cs s.stop

/-- How the hidden parts of a node start, apart from those of expressions. -/
structure NodeStarts (cs : List Char) (n : Node) : Prop where
  frontmatter : ∀ dialect value, n.kind = .frontmatter dialect value → ∀ s, n.span = some s →
    StartsHidden cs s.start
  statement : n.kind = .moduleStatement → ∀ s, n.span = some s → StartsHidden cs s.start
  element : ∀ e, n.kind.element? = some e → TagsStart cs n

/-- The marks for regions that are hidden start as hidden content does. -/
def MarksStart (cs : List Char) (n : Node) : Prop :=
  ∀ k ∈ n.marks, k.region ≠ .prose → StartsHidden cs k.span.start

/-- The kinds of nodes that hide something of their own, apart from expressions. -/
def NodeKind.hides : NodeKind → Bool
  | frontmatter .. | moduleStatement | blockElement _ | inlineElement _ => true
  | _ => false

theorem NodeKind.hides_of_isFenced {kind : NodeKind} (h : kind.isFenced = true) : kind.hides = false := by
  revert h
  cases kind <;> simp [isFenced, hides]

theorem NodeKind.hides_of_isInline {kind : NodeKind} (h : kind.isInline = true) (he : kind.element? = none) :
    kind.hides = false := by
  revert h he
  cases kind <;> simp [isInline, element?, hides]

variable {cs : List Char} {math : Bool} {container : Option Tag}

theorem startsHidden_of_head {c : Cursor} {ch : Char} (hc : c.On cs) (hhead : c.rest.head? = some ch)
    (hshows : isBlank ch = false) : StartsHidden cs c.offset := by
  obtain ⟨rest, hrest⟩ := List.head?_eq_some_iff.mp hhead
  exact .shows ⟨charAt?_offset hc hrest, hshows⟩

theorem Cursor.StartsLine.startsHidden {c : Cursor} (h : c.StartsLine cs) : StartsHidden cs c.offset := by
  by_cases hnil : c.rest = []
  · exact .trailing h.on rfl (by simp [isLineBlank, Cursor.line, hnil])
  · exact .line (h.isLine hnil).start

theorem Cursor.StopsLine.startsHidden {c : Cursor} (h : c.StopsLine cs) (hc : c.On cs) :
    StartsHidden cs c.offset := by
  rcases h with hblank | hstart
  · exact .trailing hc rfl hblank
  · exact .line hstart

theorem nodeStarts_of_kind {n : Node} (h : n.kind.hides = false) : NodeStarts cs n := by
  refine ⟨fun dialect value hkind => ?_, fun hkind => ?_, fun e he => ?_⟩
  · rw [hkind] at h
    cases h
  · rw [hkind] at h
    cases h
  · generalize n.kind = kind at h he
    cases kind with
    | blockElement | inlineElement => cases h
    | _ => cases he

theorem TagsStart.nodeStarts {n : Node} {e : Element} (h : TagsStart cs n) (he : n.kind.element? = some e) :
    NodeStarts cs n := by
  refine ⟨fun dialect value hkind => ?_, fun hkind => ?_, fun _ _ => h⟩
  · rw [hkind] at he
    cases he
  · rw [hkind] at he
    cases he

/-- An element of two tags starts with the first one, and its content stops before the last one. -/
theorem nodeStarts_branch {kind : NodeKind} {e : Element} {s : Span} {nodes : List Node}
    (he : kind.element? = some e) (hopening : StartsHidden cs s.start)
    (hclosing : ∀ t, (Node.branch kind s nodes).childrenSpan = some t → StartsHidden cs t.stop) :
    NodeStarts cs (.branch kind s nodes) := by
  refine TagsStart.nodeStarts ⟨fun t ht => ?_, hclosing⟩ he
  cases ht
  exact hopening

/-- An element of one tag starts with it. -/
theorem nodeStarts_leaf {kind : NodeKind} {e : Element} {s : Span} (he : kind.element? = some e)
    (hopening : StartsHidden cs s.start) : NodeStarts cs (.leaf kind s) := by
  refine nodeStarts_branch he hopening fun t ht => ?_
  rw [show (Node.branch kind s []).childrenSpan = none from rfl] at ht
  cases ht

/-! ## The marks of a node -/

theorem marksStart_expression {kind : NodeKind} {e : Expression} {s : Span} {nodes : List Node}
    (he : kind.expression? = some e) (h : Nested cs (.mk kind (some s) nodes) s) :
    MarksStart cs (.mk kind (some s) nodes) := by
  obtain ⟨hlength, hbody, hopen, hclose⟩ := h.expression e he
  have hstart : StartsHidden cs s.start := .shows ⟨hopen, by decide⟩
  have hstop : StartsHidden cs (s.stop - 1) := .shows ⟨hclose, by decide⟩
  have hinside : StartsHidden cs (s.start + 1) := .inBraces (by simp [precededBy, hopen])
  intro k hk _
  rw [marks_expression _ _ he, expressionMarks, hbody] at hk
  split at hk
  · simp only [List.mem_cons, List.not_mem_nil, or_false] at hk
    rcases hk with rfl | rfl | rfl
    · exact hinside
    · exact hstart
    · exact hstop
  · rw [List.mem_singleton.mp hk]
    exact hstart

theorem marksStart_element {kind : NodeKind} {e : Element} {s : Span} {nodes : List Node}
    (he : kind.element? = some e) (h : TagsStart cs (.mk kind (some s) nodes)) :
    MarksStart cs (.mk kind (some s) nodes) := by
  intro k hk _
  rw [marks_element _ _ he] at hk
  cases hcontent : (Node.mk kind (some s) nodes).childrenSpan with
  | none =>
    rw [hcontent, elementMarks, List.mem_singleton] at hk
    exact hk ▸ h.opening s rfl
  | some content =>
    simp only [hcontent, elementMarks, List.mem_cons, List.not_mem_nil, or_false] at hk
    rcases hk with rfl | rfl
    · exact h.opening s rfl
    · exact h.closing content hcontent

theorem NodeStarts.marksStart {n : Node} {s : Span} (h : NodeStarts cs n) (hn : Nested cs n s) :
    MarksStart cs n := by
  have hspan := hn.span
  obtain ⟨kind, span, nodes⟩ := n
  simp only [Node.span] at hspan
  subst hspan
  cases kind with
  | frontmatter dialect value =>
    intro k hk _
    have heq : k = ⟨.frontmatter, s⟩ := by
      simpa [Node.marks, Node.ownFound, Node.span, Node.kind, FoundSpans.ofNode, FoundSpans.marks,
        NodeKind.isProse] using hk
    exact heq ▸ h.frontmatter dialect value rfl s rfl
  | moduleStatement =>
    intro k hk _
    have heq : k = ⟨.modules, s⟩ := by
      simpa [Node.marks, Node.ownFound, Node.span, Node.kind, FoundSpans.ofNode, FoundSpans.marks,
        NodeKind.isProse] using hk
    exact heq ▸ h.statement rfl s rfl
  | blockElement e | inlineElement e => exact marksStart_element rfl (h.element e rfl)
  | blockExpression e | inlineExpression e => exact marksStart_expression rfl hn
  | root | moduleBlock | heading | paragraph =>
    intro k hk
    simp [Node.marks, Node.ownFound, Node.span, Node.kind, FoundSpans.ofNode, FoundSpans.marks,
      NodeKind.isProse] at hk
  | code | inlineCode | math | inlineMath | thematicBreak | text =>
    intro k hk hprose
    have heq : k = ⟨.prose, s⟩ := by
      simpa [Node.marks, Node.ownFound, Node.span, Node.kind, FoundSpans.ofNode, FoundSpans.marks,
        NodeKind.isProse] using hk
    exact absurd (congrArg Mark.region heq) hprose

/-! ## Inline content -/

/-- Where the last of some nodes stops that has a span, or `o` if there is none. -/
def lastStop (o : Nat) (nodes : List Node) : Nat := (nodes.reverse.findSome? Node.stop?).getD o

theorem lastStop_append (o : Nat) (ms ns : List Node) :
    lastStop o (ms ++ ns) = lastStop (lastStop o ms) ns := by
  rw [lastStop, List.reverse_append, List.findSome?_append, lastStop]
  cases ns.reverse.findSome? Node.stop? <;> rfl

theorem lastStop_textBetween {a b : Nat} (h : a ≤ b) : lastStop a (textBetween a b) = b := by
  unfold textBetween
  split
  · rfl
  · show a = b
    omega

/-- Behind a text and a node the run's nodes stop as they do behind the node. -/
theorem lastStop_after {n : Node} {s : Span} (hn : n.span = some s) (o a b : Nat) (run : InlineRun) :
    lastStop o (run.after (textBetween a b ++ [n])).nodes = lastStop s.stop run.nodes := by
  show lastStop o ((textBetween a b ++ [n]) ++ run.nodes) = _
  have hlast : lastStop (lastStop o (textBetween a b)) [n] = s.stop := by simp [lastStop, Node.stop?, hn]
  rw [lastStop_append, lastStop_append, hlast]

section Inline

variable {scope : Scope} {enclosing : Option Tag} {textStart c stop : Cursor} {run : InlineRun}

/-- The tag that closes a run stands where the nodes of the run stop. -/
theorem InlineTrace.closing_startsHidden (h : InlineTrace math scope enclosing textStart c stop run)
    (hc : c.On cs) (htext : textStart.offset ≤ c.offset) (hclosing : run.closing ≠ none) :
    StartsHidden cs (lastStop textStart.offset run.nodes) := by
  induction h with
  | stopped => exact absurd rfl hclosing
  | skip hnext _ _ ih =>
    exact ih (hc.reaches hnext.reaches) (Nat.le_trans htext hnext.reaches.le) hclosing
  | marked _ hnext _ _ ih =>
    rw [lastStop_after rfl]
    exact ih (hc.reaches hnext.reaches) (Nat.le_refl _) hclosing
  | expression _ hclose _ _ _ ih =>
    rw [lastStop_after rfl]
    exact ih (hc.reaches (Tag.reaches_closeBrace hclose)) (Nat.le_refl _) hclosing
  | closed hangle =>
    rw [lastStop_textBetween htext]
    exact startsHidden_of_head hc hangle (by decide)
  | selfClosing _ hread _ _ _ _ _ ih =>
    rw [lastStop_after rfl, (Tag.read_ok hread).2.1]
    exact ih (hc.reaches (Tag.reaches_read hread)) (Nat.le_refl _) hclosing
  | @element _ _ _ _ next _ _ closing inner _ _ hread _ _ _ hinner hclosed _ _ ihLater =>
    obtain ⟨y, _, tag, hy, -, hclose, rfl, -⟩ := hinner.closing_read hclosed
    rw [lastStop_after rfl, (Tag.read_ok hclose).2.1]
    exact ihLater (hc.reaches ((Tag.reaches_read hread).trans hinner.reaches_next)) (Nat.le_refl _) hclosing

/-- The elements of a run start with angle brackets, and so do the tags that close them. -/
theorem InlineTrace.nodeStarts (h : InlineTrace math scope enclosing textStart c stop run) (hc : c.On cs) :
    ∀ m ∈ preorderAll run.nodes, NodeStarts cs m := by
  have single {kind : NodeKind} {s : Span} (hleaf : NodeStarts cs (.leaf kind s)) :
      ∀ m ∈ (Node.leaf kind s).preorder, NodeStarts cs m :=
    forall_mem_preorder.mpr ⟨hleaf, by simp [Node.leaf, Node.children, preorderAll]⟩
  have textOnly (a b : Nat) : ∀ m ∈ preorderAll (textBetween a b), NodeStarts cs m := by
    unfold textBetween
    split
    · exact forall_mem_preorderAll_cons.mpr ⟨single (nodeStarts_of_kind rfl), by simp [preorderAll]⟩
    · simp [preorderAll]
  induction h with
  | stopped => exact textOnly _ _
  | skip hnext _ _ ih => exact ih (hc.reaches hnext.reaches)
  | marked hkind hnext _ _ ih =>
    obtain ⟨hinline, helement⟩ := isInline_of_markedKind? hkind
    exact InlineRun.forall_mem_after (nodeStarts_of_kind rfl)
      (single (nodeStarts_of_kind (NodeKind.hides_of_isInline hinline helement)))
      (ih (hc.reaches hnext.reaches))
  | expression _ hclose _ _ _ ih =>
    exact InlineRun.forall_mem_after (nodeStarts_of_kind rfl) (single (nodeStarts_of_kind rfl))
      (ih (hc.reaches (Tag.reaches_closeBrace hclose)))
  | closed => exact textOnly _ _
  | @selfClosing _ tag _ c next _ _ _ hangle hread _ _ _ _ _ ih =>
    refine InlineRun.forall_mem_after (nodeStarts_of_kind rfl) (single (nodeStarts_leaf rfl ?_))
      (ih (hc.reaches (Tag.reaches_read hread)))
    rw [(Tag.read_ok hread).2.1]
    exact startsHidden_of_head hc hangle (by decide)
  | @element _ tag _ c next _ _ closing inner _ hangle hread _ _ _ hinner hclosed _ ihInner ihLater =>
    have hnext := hc.reaches (Tag.reaches_read hread)
    have hstop := hinner.closing_startsHidden hnext (Nat.le_refl _) (by simp [hclosed])
    refine InlineRun.forall_mem_after (nodeStarts_of_kind rfl)
      (forall_mem_preorder.mpr ⟨nodeStarts_branch rfl (startsHidden_of_head hc hangle (by decide))
        fun t ht => ?_, ihInner hnext⟩)
      (ihLater (hnext.reaches hinner.reaches_next))
    have hlast : inner.nodes.reverse.findSome? Node.stop? = some t.stop := stop_of_childrenSpan ht
    simpa [lastStop, hlast] using hstop

end Inline

/-! ## Documents -/

/-- The statements of a module block start with their lines. -/
theorem nodeStarts_of_readModule {line next : Cursor} {n : Node} (h : readModule line = .ok (n, next))
    (hline : line.IsLine cs) (hkeyword : startsModule line = true) : ∀ m ∈ n.preorder, NodeStarts cs m := by
  obtain ⟨s, hs⟩ := moduleStatements_of_readModule h hline hkeyword
  refine forall_mem_preorder.mpr ⟨nodeStarts_of_kind (by rw [kind_readModule h]; rfl), fun m hm => ?_⟩
  obtain ⟨hkind, a, ha, hstart, -⟩ := hs.starts m (mem_of_mem_preorderAll (children_of_readModule h) hm)
  refine ⟨fun dialect value hfront => ?_, fun _ t ht => ?_, fun e he => ?_⟩
  · rw [hkind] at hfront
    cases hfront
  · cases ha.symm.trans ht
    exact .line hstart.start
  · rw [hkind] at he
    cases he

theorem LineOpens.nodeStarts {line next : Cursor} {n : Node}
    (h : LineOpens math container line (.block n next)) (hline : line.StartsLine cs) :
    ∀ m ∈ n.preorder, NodeStarts cs m := by
  have hc := h.on_start hline.on
  have leaf {kind : NodeKind} {s : Span} (hkind : kind.hides = false) :
      ∀ m ∈ (Node.leaf kind s).preorder, NodeStarts cs m :=
    forall_mem_preorder.mpr ⟨nodeStarts_of_kind hkind, by simp [Node.leaf, Node.children, preorderAll]⟩
  cases opens_of_openLine h.opens with
  | moduleBlock _ _ _ hread =>
    obtain ⟨hsame, hkeyword, hread⟩ := h.moduleBlock (kind_readModule hread)
    have hne := rest_ne_nil_of_isLineEnd h.notBlank
    rw [hsame] at hne
    exact nodeStarts_of_readModule hread (hline.isLine hne) hkeyword
  | @fenced fence _ =>
    exact leaf (NodeKind.hides_of_isFenced (kind_readFenced fence container line.skipIndent))
  | @heading depth _ _ _ hread =>
    unfold readHeading at hread
    obtain ⟨⟨nodes, stop⟩, hnodes, hread⟩ := ok_of_bind hread
    cases hread
    have hr := (readsThrough math cs).heading_starts depth _ hc
    obtain ⟨run, htrace, rfl, -⟩ := inlineTrace_of_inlineNodes hr hnodes
    exact forall_mem_preorder.mpr ⟨nodeStarts_of_kind rfl, htrace.nodeStarts hr.on⟩
  | thematicBreak => exact leaf rfl
  | expression hread =>
    obtain ⟨e, s, rfl⟩ := kind_readFlowExpression? hread
    exact leaf rfl
  | paragraph _ _ _ _ hread =>
    obtain ⟨run, htrace, rfl, -⟩ := readParagraph_trace hc hread
    exact forall_mem_preorder.mpr ⟨nodeStarts_of_kind rfl, htrace.nodeStarts hc⟩

/-- The tag of a line that opens an element starts with an angle bracket. -/
theorem LineOpens.startsHidden {line next : Cursor} {tag : Tag}
    (h : LineOpens math container line (.element tag next)) (hline : line.StartsLine cs) :
    StartsHidden cs tag.span.start := by
  obtain ⟨hstarts, hread, -⟩ := h.tag
  rw [(Tag.read_ok hread).2.1]
  have hangle : line.skipIndent.rest.head? = some '<' := by
    unfold Tag.startsAt at hstarts
    split at hstarts
    · next ch rest hrest => rw [hrest, List.head?_cons]
    · cases hstarts
  exact startsHidden_of_head (h.on_start hline.on) hangle (by decide)

theorem nodeStarts_front {dialects : List Dialect} {front : List Node} {flow : Cursor}
    (h : readFront dialects (ofText cs) = (front, flow)) : ∀ m ∈ preorderAll front, NodeStarts cs m := by
  unfold readFront at h
  split at h
  · next hfound =>
    cases h
    simp only [readFrontmatter?, Option.bind_eq_bind, Option.bind_eq_some_iff, Option.pure_def,
      Option.some.injEq, Prod.mk.injEq] at hfound
    obtain ⟨dialect, -, close, -, rfl, -⟩ := hfound
    refine forall_mem_preorderAll_cons.mpr
      ⟨forall_mem_preorder.mpr ⟨⟨fun _ _ _ s hs => ?_, fun hkind => ?_, fun e he => ?_⟩, ?_⟩,
        by simp [preorderAll]⟩
    · cases hs
      exact .line (.inl rfl)
    · cases hkind
    · cases he
    · simp [Node.leaf, Node.children, preorderAll]
  · cases h
    simp [preorderAll]

theorem nodeStarts_of_parse {options : ParseOptions} {root : Node} (h : parse options cs = .ok root) :
    ∀ m ∈ root.preorder, NodeStarts cs m := by
  obtain ⟨front, flow, nodes, hread, hflow, htrace, rfl⟩ := parse_trace h
  refine forall_mem_preorder.mpr ⟨nodeStarts_of_kind rfl, forall_mem_preorderAll_append.mpr
    ⟨nodeStarts_front hread, htrace.forall_mem (fun hline hopens => hopens.nodeStarts hline) ?_ ?_ hflow⟩⟩
  · intro container line next tag hline hopens _
    exact nodeStarts_leaf rfl (hopens.startsHidden hline)
  · intro container line next after tag closed inner hline hopens _ hinner
    refine nodeStarts_branch rfl (hopens.startsHidden hline) fun s hs => ?_
    obtain ⟨y, hy, hoffset, hstops⟩ :=
      hinner.content_stopsLine (hline.on.reaches hopens.reaches_next) hs
    exact hoffset ▸ hstops.startsHidden hy

/-- **Hidden content starts apart from indent.** In a document that parses, each run of bytes that is
no prose starts with a line, at a character that shows, behind a brace, or before blanks at the end of a
line. -/
theorem startsHidden_of_parse {options : ParseOptions} {root : Node} (h : parse options cs = .ok root) :
    ∀ s ∈ (Regions.ofTree root).nonProse.merged, StartsHidden cs s.start := by
  have hplaced := (parse_ok h).placed
  have hmarks : ∀ k ∈ root.preorder.flatMap Node.marks, k.region ≠ .prose → StartsHidden cs k.span.start := by
    intro k hk
    obtain ⟨m, hm, hkm⟩ := List.mem_flatMap.mp hk
    obtain ⟨s, hnested⟩ := (hplaced m hm).nested
    exact (nodeStarts_of_parse h m hm).marksStart hnested k hkm
  have hspans := span_ne_none_of_placed hplaced
  refine RangeSet.forall_mem_merged (fun a b ha _ => ha) fun s hs => ?_
  rw [Regions.nonProse, RangeSet.mem_ranges_union, RangeSet.mem_ranges_union, RangeSet.mem_ranges_ofList,
    List.mem_map, Regions.ofTree_eq, RangeSet.mem_ranges_ofList, RangeSet.mem_ranges_ofList] at hs
  rcases hs with (hs | hs) | ⟨f, hf, rfl⟩
  · exact hmarks _ (mem_preorder_marks field_modules mem_marks_modules hspans hs) (by simp)
  · exact hmarks _ (mem_preorder_marks field_code mem_marks_code hspans hs) (by simp)
  · exact hmarks _ (mem_preorder_marks field_frontmatter mem_marks_frontmatter hspans hf) (by simp)

/-! ## The indent of a line -/

/-- Before the first character behind the indent of a line there is only indent. -/
theorem isIndent_of_lt_skipIndent {line x : Cursor} {ch : Char} {rest : List Char} (hx : line.Reaches x)
    (hlt : x.offset < line.skipIndent.offset) (hrest : x.rest = ch :: rest) : isIndent ch = true := by
  obtain ⟨t, ht⟩ := hx
  obtain ⟨v, hv, hp⟩ := ht.split (path_skipWhile line isIndent) (Nat.le_of_lt hlt)
  have hmem := (hp.head_mem hrest hlt).1
  exact forall_mem_takeWhile ch (hv ▸ List.mem_append_right t hmem)

/-- Hidden content that starts within a line that is not blank starts behind its indent; if it starts
right there, it shows. -/
theorem StartsHidden.onLine {line : Cursor} {o : Nat} (h : StartsHidden cs o) (hline : line.On cs)
    (hblank : line.isLineBlank = false) (hlo : line.offset < o) (hhi : o < line.lineEnd.offset) :
    line.skipIndent.offset < o ∨ (line.skipIndent.offset = o ∧ ∃ ch, ShowsAt cs o ch) := by
  have before : ∀ {ch : Char}, precededBy cs o ch = true → ∃ x : Cursor, line.Reaches x ∧
      x.offset + 1 = o ∧ ∃ rest, x.rest = ch :: rest := by
    intro ch hch
    simp only [precededBy, Bool.and_eq_true, decide_eq_true_eq, beq_iff_eq] at hch
    obtain ⟨x, hx, hoffset, rest, hrest⟩ := on_of_charAt? hch.2
    exact ⟨x, hline.reaches_of_le hx (by omega), by omega, rest, hrest⟩
  cases h with
  | line hstart =>
    rcases hstart with rfl | hfeed
    · omega
    · obtain ⟨x, hx, hoffset, rest, hrest⟩ := before hfeed
      have hend := reaches_lineEnd_of_isLineEnd hx (isLineEnd_iff.mpr (.inr ⟨rest, hrest⟩))
      have hle := hend.le
      omega
  | @shows ch hshows =>
    by_cases hlt : o < line.skipIndent.offset
    · obtain ⟨x, hx, rfl, rest, hrest⟩ := on_of_charAt? hshows.stands
      have hreach := hline.reaches_of_le hx (Nat.le_of_lt hlo)
      have hindent := isBlank_of_isIndent (isIndent_of_lt_skipIndent hreach hlt hrest)
      rw [hshows.shows] at hindent
      cases hindent
    · rcases Nat.lt_or_eq_of_le (Nat.le_of_not_lt hlt) with hlt | heq
      · exact .inl hlt
      · exact .inr ⟨heq, ch, hshows⟩
  | inBraces hbrace =>
    obtain ⟨x, hx, hoffset, rest, hrest⟩ := before hbrace
    refine .inl (Nat.lt_of_not_le fun hle => ?_)
    exact absurd (isIndent_of_lt_skipIndent hx (by omega) hrest) (by decide)
  | @trailing c hc hoffset hleft =>
    refine .inl (Nat.lt_of_not_le fun hle => ?_)
    obtain ⟨t, ht⟩ := hline.reaches_of_le hc (by omega)
    obtain ⟨v, hv, hp⟩ := ht.split (path_skipWhile line isIndent) (hoffset ▸ hle)
    have hall : ∀ ch ∈ t ++ c.line, isBlank ch = true := by
      refine List.forall_mem_append.mpr ⟨fun ch hch => ?_, List.all_eq_true.mp hleft⟩
      exact isBlank_of_isIndent (forall_mem_takeWhile ch (hv ▸ List.mem_append_left v hch))
    have := isLineBlank_of_path (ht.trans (path_lineEnd c)) hall (isLineEnd_lineEnd c)
    rw [hblank] at this
    cases this

end Mdx

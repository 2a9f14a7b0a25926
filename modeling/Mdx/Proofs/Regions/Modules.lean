/-
The module code of a document, as a text. It is the module blocks at the root of
the tree and the insides of empty expressions. A block is balanced, and what is
behind it on its last line is blank, so with its lines it is sealed, though the
statements it is cut into may not be; the inside of an empty expression is trivia.
So the shadow of the module code is sealed once its last line is ended
(`sealed_modules`).
-/
import Mdx.Proofs.Regions.Code
import Mdx.Proofs.Tree.Statement

namespace Mdx

open Cursor Script

variable {cs : List Char} {math : Bool} {container : Option Tag} {root m n n' : Node} {s : Span}
  {c c' next next' : Cursor}

/-! ## Statements and their blocks -/

/-- A module block is read at the start of a line, up to another one. -/
structure ReadsBlock (cs : List Char) (c : Cursor) (n : Node) (next : Cursor) : Prop where
  line : c.IsLine cs
  keyword : startsModule c = true
  read : readModule c = .ok (n, next)

theorem kind_ne_of_isInline (h : m.kind.isInline = true) : m.kind ≠ .moduleStatement := by
  rintro hkind
  rw [hkind] at h
  cases h

/-- A line that opens a node with a statement in it opens a module block. -/
theorem LineOpens.statement {line : Cursor} (h : LineOpens math container line (.block n next))
    (hline : line.StartsLine cs) : ∀ m ∈ n.preorder, m.kind = .moduleStatement →
      container = none ∧ ReadsBlock cs line n next ∧ m ∈ n.children := by
  have hc := h.on_start hline.on
  have leaf {kind : NodeKind} {s : Span} (hne : kind ≠ .moduleStatement) :
      ∀ m ∈ (Node.leaf kind s).preorder, m.kind = .moduleStatement →
        container = none ∧ ReadsBlock cs line (.leaf kind s) next ∧ m ∈ (Node.leaf kind s).children :=
    forall_mem_leaf fun hkind => absurd hkind hne
  have inline {kind : NodeKind} {s : Span} {nodes : List Node} (hne : kind ≠ .moduleStatement)
      (hnodes : ∀ m ∈ preorderAll nodes, InlineNode cs m) :
      ∀ m ∈ (Node.branch kind s nodes).preorder, m.kind = .moduleStatement →
        container = none ∧ ReadsBlock cs line (.branch kind s nodes) next ∧
          m ∈ (Node.branch kind s nodes).children :=
    forall_mem_preorder.mpr ⟨fun hkind => absurd hkind hne, fun m hm hkind =>
      absurd hkind (kind_ne_of_isInline (hnodes m hm).inline)⟩
  cases opens_of_openLine h.opens with
  | moduleBlock hnone _ _ hread =>
    obtain ⟨hsame, hkeyword, hread⟩ := h.moduleBlock (kind_readModule hread)
    have hne := rest_ne_nil_of_isLineEnd h.notBlank
    rw [hsame] at hne
    refine forall_mem_preorder.mpr ⟨fun hkind => ?_, fun m hm _ =>
      ⟨hnone, ⟨hline.isLine hne, hkeyword, hread⟩, mem_of_mem_preorderAll (children_of_readModule hread) hm⟩⟩
    rw [kind_readModule hread] at hkind
    cases hkind
  | @fenced fence _ =>
    refine leaf fun hkind => ?_
    have hfenced := kind_readFenced fence container line.skipIndent
    rw [show (readFenced fence container line.skipIndent).1.kind = _ from hkind] at hfenced
    cases hfenced
  | @heading depth _ _ _ hread =>
    unfold readHeading at hread
    obtain ⟨⟨nodes, stop⟩, hnodes, hread⟩ := ok_of_bind hread
    cases hread
    have hr := (readsThrough math cs).heading_starts depth _ hc
    obtain ⟨run, htrace, rfl, -⟩ := inlineTrace_of_inlineNodes hr hnodes
    exact inline (by simp) (htrace.inlineNode hr.on)
  | thematicBreak => exact leaf (by simp)
  | expression hread =>
    obtain ⟨e, s, rfl⟩ := kind_readFlowExpression? hread
    exact leaf (by simp)
  | paragraph _ _ _ _ hread =>
    obtain ⟨run, htrace, rfl, -⟩ := readParagraph_trace hc hread
    exact inline (by simp) (htrace.inlineNode hc)

/-- A statement in flow content is in a block that stands outside all elements. -/
theorem FlowTrace.statement {line : Cursor} {nodes : List Node} {closing : Option (Tag × Cursor)}
    (h : FlowTrace math container line nodes closing) (hline : line.StartsLine cs) :
    ∀ m ∈ preorderAll nodes, m.kind = .moduleStatement →
      container = none ∧ ∃ n ∈ nodes, ∃ c next, ReadsBlock cs c n next ∧ m ∈ n.children := by
  induction h with
  | ended => simp [preorderAll]
  | skip _ _ _ ih => exact ih (startsLine_nextLine hline.on)
  | closed => simp [preorderAll]
  | @block _ line next n _ _ hopens _ ih =>
    have hn := hopens.takesLines hline.on
    refine forall_mem_preorderAll_cons.mpr ⟨fun m hm hkind => ?_, fun m hm hkind => ?_⟩
    · obtain ⟨hnone, hreads, hchild⟩ := hopens.statement hline m hm hkind
      exact ⟨hnone, n, List.mem_cons_self, line, next, hreads, hchild⟩
    · obtain ⟨hnone, n', hn', hblock⟩ := ih (hn.behind.startsLine (hopens.on_start hline.on)) m hm hkind
      exact ⟨hnone, n', List.mem_cons_of_mem _ hn', hblock⟩
  | selfClosing hopens _ _ ih =>
    refine forall_mem_preorderAll_cons.mpr ⟨forall_mem_leaf fun hkind => ?_, fun m hm hkind => ?_⟩
    · cases hkind
    · obtain ⟨hnone, n', hn', hblock⟩ :=
        ih (startsLine_nextLine (hline.on.reaches hopens.reaches_next)) m hm hkind
      exact ⟨hnone, n', List.mem_cons_of_mem _ hn', hblock⟩
  | element hopens _ hinner _ ihInner ihLater =>
    have hnext := hline.on.reaches hopens.reaches_next
    have hafter := hnext.reaches (hinner.reaches_after hnext)
    refine forall_mem_preorderAll_cons.mpr ⟨forall_mem_preorder.mpr ⟨fun hkind => ?_, fun m hm hkind => ?_⟩,
      fun m hm hkind => ?_⟩
    · cases hkind
    · obtain ⟨hnone, -⟩ := ihInner (startsLine_nextLine hnext) m hm hkind
      cases hnone
    · obtain ⟨hnone, n', hn', hblock⟩ := ihLater (startsLine_nextLine hafter) m hm hkind
      exact ⟨hnone, n', List.mem_cons_of_mem _ hn', hblock⟩

/-- A module block of a document, which is read from `c` to `next`. -/
structure IsBlock (cs : List Char) (root : Node) (c : Cursor) (n : Node) (next : Cursor) : Prop
    extends ReadsBlock cs c n next where
  mem : n ∈ root.children

/-- Each statement of a document is in a block. -/
theorem statement_of_parse {options : ParseOptions} (h : parse options cs = .ok root) :
    ∀ m ∈ root.preorder, m.kind = .moduleStatement →
      ∃ c n next, IsBlock cs root c n next ∧ m ∈ n.children := by
  obtain ⟨front, flow, nodes, hread, hflow, htrace, rfl⟩ := parse_trace h
  have hfront : ∀ m ∈ preorderAll front, m.kind ≠ .moduleStatement := by
    rcases (readFront_ok hread).2 with rfl | ⟨dialect, value, span, rfl⟩
    · simp [preorderAll]
    · exact forall_mem_preorderAll_cons.mpr
        ⟨forall_mem_leaf (by simp [Node.leaf, Node.kind]), by simp [preorderAll]⟩
  refine forall_mem_preorder.mpr ⟨fun hkind => ?_, forall_mem_preorderAll_append.mpr
    ⟨fun m hm hkind => absurd hkind (hfront m hm), fun m hm hkind => ?_⟩⟩
  · cases hkind
  · obtain ⟨-, n, hn, c, next, hreads, hchild⟩ := htrace.statement hflow m hm hkind
    exact ⟨c, n, next, ⟨hreads, List.mem_append_right front hn⟩, hchild⟩

/-! ## The text of a block -/

/-- What shows behind a place stands behind the blanks there. -/
theorem le_of_blank_gap {b x : Cursor} {gap : List Char} {ch : Char} {rest : List Char} (hb : b.Path gap next)
    (hblank : ∀ ch ∈ gap, isBlank ch = true) (hx : b.Reaches x) (hrest : x.rest = ch :: rest)
    (hshows : isBlank ch = false) : next.offset ≤ x.offset := by
  refine Nat.le_of_not_lt fun hlt => ?_
  obtain ⟨u, hu⟩ := hx
  obtain ⟨v, rfl, hv⟩ := hu.split hb (Nat.le_of_lt hlt)
  have hch := hblank ch (List.mem_append_right u (hv.head_mem hrest hlt).1)
  rw [hshows] at hch
  cases hch

/-- A block starts with a letter. -/
theorem shows_of_startsModule (h : startsModule c = true) :
    ∃ ch rest, c.rest = ch :: rest ∧ isBlank ch = false := by
  obtain ⟨ch, rest, hrest, hfirst⟩ := head_of_startsModule h
  refine ⟨ch, rest, hrest, ?_⟩
  rcases hfirst with rfl | rfl <;> decide

/-- The place of the line feed before the start of a line. -/
theorem exists_newline_of_precededBy (hc : c.On cs) (h : precededBy cs c.offset '\n' = true) :
    ∃ y : Cursor, y.On cs ∧ y.Path ['\n'] c := by
  simp only [precededBy, Bool.and_eq_true, decide_eq_true_eq, beq_iff_eq] at h
  obtain ⟨y, hy, hoffset, rest, hrest⟩ := on_of_charAt? h.2
  have hp := path_cons hrest
  have hnext : (y.drop 1).offset = y.offset + 1 := hp.offset
  have hsame : y.drop 1 = c := Reaches.eq_of_offset_eq (hy.reaches hp.reaches) hc (by omega)
  exact ⟨y, hy, hsame ▸ hp⟩

/-- The text of a block, and the blanks behind it. -/
structure BlockText (cs : List Char) (c : Cursor) (n : Node) (next : Cursor) (text : List Char) : Prop where
  path : c.Path text next
  balanced : Balanced text
  ends : text.getLast? = some '\n' ∨ next.offset = byteLength cs
  holds : ∀ o ch, ShowsAt cs o ch → c.offset ≤ o → o < next.offset →
    ∃ m ∈ n.children, m.kind = .moduleStatement ∧ m.holdsChar o ch = true

theorem ReadsBlock.text (h : ReadsBlock cs c n next) : ∃ text, BlockText cs c n next text := by
  obtain ⟨s, hs⟩ := moduleStatements_of_readModule h.read h.line h.keyword
  have htakes := readModule_ok h.read h.line.on h.line.nonempty
  obtain ⟨b, gap, hcb, hspan, hgap, hblank⟩ := htakes.ends
  cases hspan.symm.trans hs.span
  obtain ⟨t, ht⟩ := hcb
  have hbalanced := hs.balanced
  rw [h.line.on.slice ht, checkBalanced_eq_ok_iff] at hbalanced
  refine ⟨t ++ gap, ht.trans hgap, (balanced_append_blanks hblank).mpr hbalanced, ?_, fun o ch hshows hlo hhi => ?_⟩
  · have hwhole := ht.trans hgap
    have hbehind := htakes.behind.startsLine h.line.on
    have hlt : c.offset < next.offset := by
      refine hwhole.lt fun hnil => ?_
      have hshorter := htakes.shorter
      rw [hwhole.rest, hnil] at hshorter
      exact Nat.lt_irrefl _ hshorter
    rcases hbehind.start with hzero | hfeed | hend
    · omega
    · obtain ⟨y, hy, hnewline⟩ := exists_newline_of_precededBy hbehind.on hfeed
      rcases endsLine_of_path h.line.on hwhole hy hnewline with hnil | hlast
      · exact absurd hnil (hwhole.ne_nil hlt)
      · exact .inl hlast
    · exact .inr hend
  · obtain ⟨x, hx, rfl, rest, hrest⟩ := on_of_charAt? hshows.stands
    have hcx := h.line.on.reaches_of_le hx hlo
    have hlt : x.offset < b.offset := by
      refine Nat.lt_of_not_le fun hle => ?_
      have hbx := ht.reaches.of_le hcx hle
      exact Nat.not_le_of_lt hhi (le_of_blank_gap hgap hblank hbx hrest hshows.shows)
    obtain ⟨u, hu⟩ := hcx.of_le ht.reaches (Nat.le_of_lt hlt)
    have hstop := (hu.head_mem hrest hlt).2
    obtain ⟨m, hm, hholds⟩ := hs.covers x.offset ch hshows (Span.holdsChar_iff.mpr ⟨hlo, hstop⟩)
    exact ⟨m, hm, (hs.starts m hm).1, hholds⟩

/-! ## Parts of the module code -/

theorem mem_marks_modules_iff : ⟨.modules, s⟩ ∈ n.marks ↔ s ∈ n.ownFound.modules := by
  rw [Node.marks, List.mem_append, FoundSpans.marks]
  split <;> simp

theorem contains_modules_ofTree (h : ∀ m ∈ root.preorder, Placed cs m) {o : Nat} :
    (Regions.ofTree root).modules.contains o = true ↔
      ∃ m ∈ root.preorder, ∃ s, ⟨.modules, s⟩ ∈ m.marks ∧ s.contains o = true := by
  rw [Regions.ofTree_eq]
  exact contains_found field_modules mem_marks_modules_iff h

/-- A part of the module code: a block with its lines, or the inside of an empty expression. -/
inductive IsModules (cs : List Char) (root : Node) : Span → Prop
  | block {c next : Cursor} {n : Node} :
    IsBlock cs root c n next → IsModules cs root (c.spanTo next.offset)
  | body {m : Node} {e : Expression} :
    m ∈ root.preorder → m.kind.expression? = some e → e.isEmpty = true → IsModules cs root e.body

/-- The marks of two nodes have no byte in common. -/
theorem marks_disjoint (h : Rooted cs root) (hm : m ∈ root.preorder) (hn : n ∈ root.preorder) (hne : m ≠ n) :
    ∀ k ∈ m.marks, ∀ k' ∈ n.marks, k.span.Disjoint k'.span := by
  have hacross := (List.pairwise_flatMap.mp (marked_preorder root h.placed _ h.span).apart).2
  have : Std.Symm fun x y : Node => ∀ k ∈ x.marks, ∀ k' ∈ y.marks, k.span.Disjoint k'.span :=
    ⟨fun _ _ hxy k hk k' hk' => (hxy k' hk' k hk).symm⟩
  exact hacross.forall hm hn hne

theorem IsBlock.mem_preorder (h : IsBlock cs root c n next) (hm : m ∈ n.children) : m ∈ root.preorder :=
  root.mem_preorder_trans (Node.mem_preorder_of_child h.mem) (Node.mem_preorder_of_child hm)

/-- A statement marks its span. -/
theorem statement_mark (hkind : m.kind = .moduleStatement) (hs : m.span = some s) : ⟨.modules, s⟩ ∈ m.marks := by
  obtain ⟨kind, span, nodes⟩ := m
  cases hkind
  cases hs
  rw [mem_marks_modules_iff]
  exact List.mem_singleton_self s

/-- What shows in a block is module code of a statement. -/
theorem IsBlock.exists_mark (h : IsBlock cs root c n next) {o : Nat} {ch : Char} (hshows : ShowsAt cs o ch)
    (hlo : c.offset ≤ o) (hhi : o < next.offset) : ∃ m ∈ root.preorder, m.kind = .moduleStatement ∧
      ∃ s, ⟨.modules, s⟩ ∈ m.marks ∧ s.contains o = true := by
  obtain ⟨text, htext⟩ := h.text
  obtain ⟨m, hm, hkind, hholds⟩ := htext.holds o ch hshows hlo hhi
  obtain ⟨s, hs, hholds⟩ := Node.holdsChar_iff.mp hholds
  rw [Span.holdsChar_iff] at hholds
  have hsize := ch.utf8Size_pos
  exact ⟨m, h.mem_preorder hm, hkind, s, statement_mark hkind hs, Span.contains_iff.mpr ⟨hholds.1, by omega⟩⟩

/-- Where the block starts a letter shows. -/
theorem ReadsBlock.shows (h : ReadsBlock cs c n next) : c.offset < next.offset ∧ ∃ ch, ShowsAt cs c.offset ch := by
  obtain ⟨ch, rest, hrest, hblank⟩ := shows_of_startsModule h.keyword
  have htakes := readModule_ok h.read h.line.on h.line.nonempty
  exact ⟨(htakes.behind.before h.line.nonempty).lt, ch, charAt?_offset h.line.on hrest, hblank⟩

/-- A node stops before another one starts. -/
def Node.Precedes (m n : Node) : Prop := ∀ s t, m.span = some s → n.span = some t → s.stop ≤ t.start

/-- The lines of a block stop before the next one starts. -/
theorem IsBlock.le_of_precedes (h : IsBlock cs root c n next) (h' : IsBlock cs root c' n' next')
    (hle : n.Precedes n') : next.offset ≤ c'.offset := by
  obtain ⟨b, gap, hcb, hspan, hgap, hblank⟩ := (readModule_ok h.read h.line.on h.line.nonempty).ends
  obtain ⟨b', gap', -, hspan', -⟩ := (readModule_ok h'.read h'.line.on h'.line.nonempty).ends
  obtain ⟨ch, rest, hrest, hshows⟩ := shows_of_startsModule h'.keyword
  have hbefore : b.offset ≤ c'.offset := hle _ _ hspan hspan'
  exact le_of_blank_gap hgap hblank ((h.line.on.reaches hcb).reaches_of_le h'.line.on hbefore) hrest hshows

theorem IsBlock.disjoint (hroot : Rooted cs root) (h : IsBlock cs root c n next) (h' : IsBlock cs root c' n' next')
    (hne : c.spanTo next.offset ≠ c'.spanTo next'.offset) :
    (c.spanTo next.offset).Disjoint (c'.spanTo next'.offset) := by
  have hnodes : n ≠ n' := by
    rintro rfl
    obtain ⟨b, gap, -, hspan, -⟩ := (readModule_ok h.read h.line.on h.line.nonempty).ends
    obtain ⟨b', gap', -, hspan', -⟩ := (readModule_ok h'.read h'.line.on h'.line.nonempty).ends
    have hstart := congrArg Span.start (Option.some.inj (hspan.symm.trans hspan'))
    obtain rfl : c = c' := Reaches.eq_of_offset_eq h.line.on h'.line.on hstart
    cases h.read.symm.trans h'.read
    exact hne rfl
  have hordered : root.children.Pairwise fun x y => x.Precedes y ∨ y.Precedes x :=
    hroot.laid.pairwise.imp Or.inl
  have : Std.Symm fun x y : Node => x.Precedes y ∨ y.Precedes x := ⟨fun _ _ hxy => hxy.symm⟩
  rcases hordered.forall h.mem h'.mem hnodes with hle | hle
  · exact Span.disjoint_of_le (h.le_of_precedes h' hle)
  · exact (Span.disjoint_of_le (h'.le_of_precedes h hle)).symm

/-- The inside of an empty expression is a mark of it. -/
theorem body_mark {e : Expression} (hspan : m.span ≠ none) (he : m.kind.expression? = some e)
    (hempty : e.isEmpty = true) : ⟨.modules, e.body⟩ ∈ m.marks := by
  obtain ⟨kind, span, nodes⟩ := m
  cases span with
  | none => exact absurd rfl hspan
  | some span =>
    rw [marks_expression _ _ (show kind.expression? = some e from he), expressionMarks, if_pos hempty]
    exact List.mem_cons_self

/-- No mark of another node holds a character that shows in a block. -/
theorem IsBlock.contains_eq_false (hroot : Rooted cs root) (h : IsBlock cs root c n next) (hm : m ∈ root.preorder)
    (hkind : m.kind ≠ .moduleStatement) {k : Mark} (hk : k ∈ m.marks) {o : Nat} {ch : Char}
    (hshows : ShowsAt cs o ch) (hlo : c.offset ≤ o) (hhi : o < next.offset) : k.span.contains o = false := by
  obtain ⟨m', hm', hkind', s, hs, hso⟩ := h.exists_mark hshows hlo hhi
  have hne : m ≠ m' := by
    rintro rfl
    exact hkind hkind'
  exact Bool.eq_false_iff.mpr fun ho => marks_disjoint hroot hm hm' hne k hk _ hs o ⟨ho, hso⟩

theorem IsBlock.disjoint_body {e : Expression} (hroot : Rooted cs root) (h : IsBlock cs root c n next)
    (hm : m ∈ root.preorder) (hwritten : IsWritten cs m) (he : m.kind.expression? = some e)
    (hempty : e.isEmpty = true) : (c.spanTo next.offset).Disjoint e.body := by
  have hkind : m.kind ≠ .moduleStatement := by
    rintro hkind
    rw [hkind] at he
    cases he
  have hmark := body_mark (span_ne_none_of_placed hroot.placed m hm) he hempty
  rintro o ⟨hblock, hbody⟩
  rw [Span.contains_iff] at hblock
  cases hwritten.expression e he with
  | @braces kind a x y b body ha hopen _ _ heq _ =>
    rw [heq, Span.contains_iff] at hbody
    simp only [spanTo] at hblock hbody
    have hx : x.offset = a.offset + 1 := hopen.offset
    by_cases hlt : a.offset < c.offset
    · -- The inside reaches over the start of the block.
      obtain ⟨hpos, ch, hshows⟩ := h.shows
      have hout := h.contains_eq_false hroot hm hkind hmark hshows (Nat.le_refl _) hpos
      rw [← Bool.not_eq_true, heq, Span.contains_iff] at hout
      simp only [spanTo] at hout
      omega
    · -- The open brace is in the block.
      have hbrace : ⟨.code, a.spanTo x.offset⟩ ∈ (Node.leaf kind (a.spanTo b.offset)).marks := by
        rw [Node.leaf, marks_expression _ _ (show kind.expression? = some e from he), expressionMarks,
          if_pos hempty, heq]
        simp [spanTo]
      have hshows : ShowsAt cs a.offset '\x7b' := ⟨charAt?_offset ha hopen.rest, by decide⟩
      have hout := h.contains_eq_false hroot hm hkind hbrace hshows (by omega) (by omega)
      rw [← Bool.not_eq_true, Span.contains_iff] at hout
      simp only [spanTo] at hout
      omega

/-- What marks module code is a statement or an empty expression. -/
theorem modules_mark_cases (hs : ⟨.modules, s⟩ ∈ m.marks) : (m.kind = .moduleStatement ∧ m.span = some s) ∨
    ∃ e, m.kind.expression? = some e ∧ e.isEmpty = true ∧ s = e.body := by
  rw [mem_marks_modules_iff] at hs
  obtain ⟨kind, span, nodes⟩ := m
  cases span with
  | none => simp [Node.ownFound, Node.span] at hs
  | some span =>
    simp only [Node.ownFound, Node.span, Option.elim, FoundSpans.ofNode, Node.kind] at hs
    cases kind with
    | moduleStatement => exact .inl ⟨rfl, congrArg some (List.mem_singleton.mp hs).symm⟩
    | blockExpression e | inlineExpression e =>
      simp only at hs
      split at hs
      · next hempty => exact .inr ⟨e, rfl, hempty, List.mem_singleton.mp hs⟩
      · cases hs
    | blockElement | inlineElement =>
      simp only at hs
      split at hs <;> cases hs
    | _ => cases hs

/-- The statements of a block stand in it. -/
theorem ReadsBlock.within (h : ReadsBlock cs c n next) (hm : m ∈ n.children) (hs : m.span = some s) :
    s.Within (c.spanTo next.offset) := by
  have htakes := readModule_ok h.read h.line.on h.line.nonempty
  obtain ⟨b, gap, -, hspan, hgap, -⟩ := htakes.ends
  obtain ⟨a', b', -, hab, hspan', hshape⟩ := htakes.placed n n.mem_preorder_self
  obtain ⟨t, ht, x, y, hx, -, hy, rfl⟩ := (hshape.laid hab).holds hm
  cases hs.symm.trans ht
  have hstart := congrArg Span.start (Option.some.inj (hspan.symm.trans hspan'))
  have hstop := congrArg Span.stop (Option.some.inj (hspan.symm.trans hspan'))
  simp only [spanTo] at hstart hstop
  have hle := hx.le
  have hle' := hy.le
  have hle'' := hgap.le
  constructor <;> simp only [spanTo] <;> omega

section Parsed

variable {options : ParseOptions}

/-- Each byte of module code is in a block or in an empty expression. -/
theorem exists_isModules (h : parse options cs = .ok root) {o : Nat}
    (ho : (Regions.ofTree root).modules.contains o = true) : ∃ u, IsModules cs root u ∧ u.contains o = true := by
  obtain ⟨m, hm, s, hs, hcontains⟩ := (contains_modules_ofTree (parse_ok h).placed).mp ho
  rcases modules_mark_cases hs with ⟨hkind, hspan⟩ | ⟨e, he, hempty, rfl⟩
  · obtain ⟨c, n, next, hblock, hchild⟩ := statement_of_parse h m hm hkind
    exact ⟨_, .block hblock, (hblock.within hchild hspan).contains hcontains⟩
  · exact ⟨_, .body hm he hempty, hcontains⟩

/-- All module code stands in blocks and in empty expressions. -/
theorem parts_modules (h : parse options cs = .ok root) :
    Parts cs (Regions.ofTree root).modules.merged (IsModules cs root) := by
  have hroot := parse_ok h
  have hmarked := marked_preorder root hroot.placed _ hroot.span
  have hspans := span_ne_none_of_placed hroot.placed
  have hmem : ∀ {m : Node} {e : Expression}, m ∈ root.preorder → m.kind.expression? = some e → e.isEmpty = true →
      ⟨.modules, e.body⟩ ∈ root.preorder.flatMap Node.marks := fun hm he hempty =>
    List.mem_flatMap.mpr ⟨_, hm, body_mark (hspans _ hm) he hempty⟩
  refine ⟨fun u hu => ?_, fun u v hu hv hne => ?_, fun o ch _ ho => ?_⟩
  · cases hu with
    | block hblock =>
      obtain ⟨text, htext⟩ := hblock.text
      exact Span.inText_spanTo hblock.line.on htext.path.reaches
    | body hm he hempty => exact hmarked.inText _ (hmem hm he hempty)
  · cases hu with
    | block hblock =>
      cases hv with
      | block hblock' => exact hblock.disjoint hroot hblock' hne
      | body hm he hempty => exact hblock.disjoint_body hroot hm (isWritten_of_parse h _ hm) he hempty
    | body hm he hempty =>
      cases hv with
      | block hblock' => exact (hblock'.disjoint_body hroot hm (isWritten_of_parse h _ hm) he hempty).symm
      | body hm' he' hempty' =>
        exact hmarked.disjoint_of_ne (hmem hm he hempty) (hmem hm' he' hempty')
          fun heq => hne (congrArg Mark.span heq)
  · exact exists_isModules h ho

/-! ## The shadow of the module code -/

/-- What shows in a block is module code. -/
theorem IsBlock.contains_modules (hblock : IsBlock cs root c n next) (h : parse options cs = .ok root) {o : Nat}
    {ch : Char} (hshows : ShowsAt cs o ch) (hlo : c.offset ≤ o) (hhi : o < next.offset) :
    (Regions.ofTree root).modules.contains o = true := by
  obtain ⟨m, hm, -, s, hs, hcontains⟩ := hblock.exists_mark hshows hlo hhi
  exact (contains_modules_ofTree (parse_ok h).placed).mpr ⟨m, hm, s, hs, hcontains⟩

/-- A block is as it stands in the shadow. -/
theorem IsBlock.shadow_eq (hblock : IsBlock cs root c n next) (h : parse options cs = .ok root) {text : List Char}
    (hp : c.Path text next) : shadowFrom (Regions.ofTree root).modules.merged c.offset text = text :=
  shadowFrom_eq_of_shows hblock.line.on hp fun _ _ hshows hlo hhi => hblock.contains_modules h hshows hlo hhi

/-- A part of the module code is sealed in the shadow, if it does not reach to the end of the text. -/
theorem IsModules.sealed {u : Span} (hu : IsModules cs root u) (h : parse options cs = .ok root)
    (hstop : ∀ c n next, IsBlock cs root c n next → u = c.spanTo next.offset → next.offset ≠ byteLength cs) :
    Sealed (shadowFrom (Regions.ofTree root).modules.merged u.start (slice cs u)) := by
  have hroot := parse_ok h
  cases hu with
  | @block c next n hblock =>
    obtain ⟨text, htext⟩ := hblock.text
    rw [hblock.line.on.slice htext.path]
    show Sealed (shadowFrom _ c.offset text)
    rw [hblock.shadow_eq h htext.path]
    rcases htext.ends with hfeed | hend
    · obtain ⟨front, rfl⟩ := List.getLast?_eq_some_iff.mp hfeed
      exact htext.balanced.sealed
    · exact absurd hend (hstop c n next hblock rfl)
  | @body m e hm he hempty =>
    have hmark := body_mark (span_ne_none_of_placed hroot.placed m hm) he hempty
    cases (isWritten_of_parse h m hm).expression e he with
    | @braces kind a x y b body ha hopen hbody _ heq hbraced =>
      rw [hempty] at hbraced
      have hx := ha.reaches hopen.reaches
      rw [heq, hx.slice hbody]
      show Sealed (shadowFrom _ x.offset body)
      rw [shadowFrom_eq_of_shows hx hbody fun o _ _ hlo hhi => ?_]
      · exact hbraced.sealed_body
      · exact (contains_modules_ofTree hroot.placed).mpr
          ⟨_, hm, _, hmark, heq ▸ Span.contains_iff.mpr ⟨hlo, hhi⟩⟩

/-- A block that goes on to the end of the text is the end of the shadow. -/
theorem IsBlock.shadow_of_last (hblock : IsBlock cs root c n next) (h : parse options cs = .ok root)
    (hend : next.offset = byteLength cs) : ∃ before text, (ofText cs).Path before c ∧ Balanced text ∧
      shadow (Regions.ofTree root).modules cs =
        shadowFrom (Regions.ofTree root).modules.merged 0 before ++ text := by
  obtain ⟨text, htext⟩ := hblock.text
  have ⟨before, hbefore⟩ := hblock.line.on
  have hnext : next = ofEnd cs := Reaches.eq_of_offset_eq (hblock.line.on.reaches htext.path.reaches)
    (path_ofEnd cs).reaches hend
  have hcs : cs = before ++ text := by
    have hwhole := (hbefore.trans htext.path).rest
    rwa [hnext, show (ofEnd cs).rest = [] from rfl, List.append_nil] at hwhole
  have hoffset : 0 + byteLength before = c.offset := hbefore.offset.symm
  refine ⟨before, text, hbefore, htext.balanced, ?_⟩
  conv => lhs; rw [hcs]
  rw [shadow, shadowFrom_append, hoffset, hblock.shadow_eq h htext.path]

/-- The shadow of the module code is sealed if its last line is ended. -/
theorem sealed_modules (h : parse options cs = .ok root) :
    Sealed (shadow (Regions.ofTree root).modules cs ++ ['\n']) := by
  have hparts := parts_modules h
  have hzero : OutsideParts (IsModules cs root) 0 := fun u _ hu => absurd hu (Nat.not_lt_zero _)
  have hfeed : Sealed ['\n'] := sealed_singleton (by decide)
  by_cases hlast : ∃ c n next, IsBlock cs root c n next ∧ next.offset = byteLength cs
  · -- The last block may end in a line comment, so it is sealed only with the line feed behind it.
    obtain ⟨c, n, next, hblock, hend⟩ := hlast
    obtain ⟨before, text, hbefore, hbalanced, hshadow⟩ := hblock.shadow_of_last h hend
    have hpos := hblock.shows.1
    have hstart : OutsideParts (IsModules cs root) c.offset := hparts.outside_start (.block hblock) hpos
    have hsealed := hparts.sealed (on_ofText cs) hbefore hzero hstart fun u hu hle => hu.sealed h ?_
    · have hline : Sealed (text ++ ['\n']) :=
        Balanced.sealed ((balanced_append_blanks (List.forall_mem_singleton.mpr (by decide))).mpr hbalanced)
      rw [hshadow, List.append_assoc]
      exact hsealed.append hline
    · rintro c' n' next' hblock' rfl
      simp only [spanTo] at hle
      omega
  · have hwhole := hparts.sealed (on_ofText cs) (path_ofEnd cs) hzero (fun u hu _ => (hparts.inText u hu).bounded)
      fun u hu _ => hu.sealed h fun c n next hblock _ hend => hlast ⟨c, n, next, hblock, hend⟩
    exact hwhole.append hfeed

end Parsed

end Mdx

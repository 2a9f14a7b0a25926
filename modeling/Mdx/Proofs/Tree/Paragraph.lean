/-
Paragraphs and the lines around them.

A line of spaces and tabs ends a paragraph, unless it stands in an expression or a
tag that goes on behind it (`paragraphs_end_at_indent`). Blank lines that hold
other blanks join, and a paragraph may start on one of them and have no text.

A line that interrupts a paragraph opens none, so that between two paragraphs with
text that follow each other there is a blank line
(`interruption_opens_no_paragraph`).
-/
import Mdx.Proofs.Trace.Paragraph
import Mdx.Proofs.Tree.Coverage

namespace Mdx

open Cursor

/-- The line stands in an expression, or in one of the tags of an element. -/
inductive Encloses (cs : List Char) (line : Cursor) (m : Node) : Prop
  | expression {e : Expression} {s : Span} :
    m.kind = .inlineExpression e → m.span = some s → Span.Within ⟨line.offset, line.lineEnd.offset⟩ s →
    Encloses cs line m
  | tag {e : Element} {s : Span} {opening tag : Tag} {closing : Option Tag} :
    m.kind = .inlineElement e → m.span = some s → ElementTags cs e s opening closing →
    tag = opening ∨ closing = some tag → Span.Within ⟨line.offset, line.lineEnd.offset⟩ tag.span →
    Encloses cs line m

/-! ## Lines of spaces and tabs -/

variable {cs : List Char} {math : Bool} {container : Option Tag}

/-- A blank line that starts in a text does not go on behind its last character, if this one shows. -/
theorem Cursor.IsLine.lineEnd_le {line d next : Cursor} {ch : Char} (hline : line.IsLine cs)
    (hblank : line.isLineBlank = true) (hd : d.On cs) (hlast : d.Path [ch] next) (hch : isBlank ch = false)
    (hle : line.offset ≤ next.offset) : line.lineEnd.offset ≤ next.offset := by
  have hrest : d.rest = ch :: next.rest := hlast.rest
  have hlt := hlast.lt (by simp)
  by_cases hbefore : d.offset < line.offset
  · -- The last character stands on the line before, which goes on up to this one.
    have hend := hline.lineEnd_lt hd hbefore
    have htext : d.line = ch :: next.line := by
      have hfeed : ch ≠ '\n' := by
        rintro rfl
        cases hch
      simp [Cursor.line, hrest, hfeed]
    have hoffset := (path_lineEnd d).offset
    have hnext := hlast.offset
    rw [htext] at hoffset
    simp only [byteLength_cons, byteLength_nil] at hoffset hnext
    omega
  · -- The last character stands on this line, which is blank.
    by_cases hbehind : next.offset < line.lineEnd.offset
    · obtain ⟨t, ht⟩ := hline.on.reaches_of_le hd (by omega)
      obtain ⟨u, hu, hleft⟩ := ht.split (path_lineEnd line) (by omega)
      have hmem : ch ∈ line.line := hu ▸ List.mem_append_right t (hleft.head_mem hrest (by omega)).1
      rw [List.all_eq_true.mp hblank ch hmem] at hch
      cases hch
    · omega

theorem within_of_tag {line c next : Cursor} {tag : Tag} (hc : c.On cs) (hread : Tag.read c = .ok (tag, next))
    (hline : line.IsLine cs) (hblank : line.isLineBlank = true) (hlt : c.offset < line.offset)
    (hle : line.offset ≤ next.offset) : Span.Within ⟨line.offset, line.lineEnd.offset⟩ tag.span := by
  obtain ⟨d, hd, hlast⟩ := Tag.closes_read hread
  rw [(Tag.read_ok hread).2.1]
  exact ⟨Nat.le_of_lt hlt, hline.lineEnd_le hblank (hc.reaches hd) hlast (by decide) hle⟩

/-- A line of spaces and tabs does not start where lines join. -/
theorem Joined.lt_of_indent {line c next stop : Cursor} (h : Joined cs math container c stop)
    (hline : line.IsLine cs) (hindent : line.skipIndent.isLineEnd = true) (hlt : c.offset < line.offset)
    (hstop : next.Reaches stop) : next.offset < line.offset := by
  by_cases hle : line.offset ≤ next.offset
  · have hjoins := h line hline hlt (Nat.le_trans hle hstop.le)
    simp [interrupts, hindent] at hjoins
  · omega

/-- The line stands in a construct of the run, or in the tag that closes it. -/
def Enclosed (cs : List Char) (run : InlineRun) (line : Cursor) : Prop :=
  (∃ m ∈ preorderAll run.nodes, Encloses cs line m) ∨
    ∃ span, run.closing = some span ∧ Span.Within ⟨line.offset, line.lineEnd.offset⟩ span

theorem Enclosed.after {run : InlineRun} {line : Cursor} (h : Enclosed cs run line) (nodes : List Node) :
    Enclosed cs (run.after nodes) line := by
  refine h.imp_left ?_
  rintro ⟨m, hm, hencloses⟩
  refine ⟨m, ?_, hencloses⟩
  rw [InlineRun.after, preorderAll_append, List.mem_append]
  exact .inr hm

theorem enclosed_node {n m : Node} {line : Cursor} (run : InlineRun) (before : List Node)
    (hm : m ∈ n.preorder) (h : Encloses cs line m) : Enclosed cs (run.after (before ++ [n])) line := by
  refine .inl ⟨m, ?_, h⟩
  rw [InlineRun.after, preorderAll_append, preorderAll_append, preorderAll]
  simp [hm]

/-- The tags of an element whose content was read up to its closing tag. -/
theorem InlineTrace.elementTags {scope : Scope} {tag : Tag} {c next stop : Cursor} {closing : Span}
    {inner : InlineRun} (h : InlineTrace math scope (some tag) next next stop inner) (hc : c.On cs)
    (hread : Tag.read c = .ok (tag, next)) (hclosing : inner.closing = some closing) :
    ∃ closed, closed.span = closing ∧
      ElementTags cs tag.element (c.spanTo closing.stop) tag (some closed) := by
  obtain ⟨y, opening, closed, hy, heq, hclose, hspan, hcloses, hpair⟩ := h.closing_read hclosing
  cases heq
  have hstop : closing.stop = inner.next.offset := by
    rw [← hspan, (Tag.read_ok hclose).2.1]
    rfl
  rw [hstop]
  exact ⟨closed, hspan, elementTags_of_read hc hread hy hclose hcloses hpair⟩

/-- While a paragraph is read, the lines of spaces and tabs that are passed stand in its constructs. -/
theorem InlineTrace.enclosed {enclosing : Option Tag} {textStart c stop : Cursor} {run : InlineRun}
    (h : InlineTrace math (.paragraph container) enclosing textStart c stop run) (hc : c.On cs)
    (hjoined : Joined cs math container c stop) : Joined cs math container run.next run.stop ∧
      ∀ line : Cursor, line.IsLine cs → line.skipIndent.isLineEnd = true → c.offset < line.offset →
        line.offset ≤ run.next.offset → Enclosed cs run line := by
  induction h with
  | stopped =>
    refine ⟨hjoined, fun line _ _ hlt hle => ?_⟩
    simp only at hle
    omega
  | skip hnext hstop _ ih =>
    obtain ⟨hbehind, hlines⟩ := ih (hc.reaches hnext.reaches) (hjoined.mono hnext.reaches.le)
    refine ⟨hbehind, fun line hline hindent hlt hle => ?_⟩
    exact hlines line hline hindent (hjoined.lt_of_indent hline hindent hlt hstop) hle
  | marked _ hnext hstop _ ih =>
    obtain ⟨hbehind, hlines⟩ := ih (hc.reaches hnext.reaches) (hjoined.mono hnext.reaches.le)
    refine ⟨hbehind, fun line hline hindent hlt hle => Enclosed.after ?_ _⟩
    exact hlines line hline hindent (hjoined.lt_of_indent hline hindent hlt hstop) hle
  | @expression _ _ c _ _ _ close run hopen hclose hreach _ _ ih =>
    obtain ⟨body, hbody, hlast, hwhole⟩ := Script.closingBrace_body hclose hopen
    obtain ⟨hbehind, hlines⟩ := ih (hc.reaches hwhole.reaches) (hjoined.reach hc hwhole.reaches hreach)
    refine ⟨hbehind, fun line hline hindent hlt hle => ?_⟩
    by_cases hin : line.offset ≤ (close.place.drop 1).offset
    · have hplace := hc.reaches ((reaches_drop c 1).trans hbody.reaches)
      have hend := hline.lineEnd_le (isLineBlank_of_indent hindent) hplace hlast (by decide) hin
      exact enclosed_node run _ (Node.mem_preorder_self _) (.expression rfl rfl ⟨Nat.le_of_lt hlt, hend⟩)
    · exact (hlines line hline hindent (by omega) hle).after _
  | @closed opening tag _ c next _ _ _ hread hreach _ _ _ =>
    refine ⟨hjoined.reach hc (Tag.reaches_read hread) hreach, fun line hline hindent hlt hle => ?_⟩
    exact .inr ⟨tag.span, rfl, within_of_tag hc hread hline (isLineBlank_of_indent hindent) hlt hle⟩
  | @selfClosing _ tag _ c next _ _ run _ hread hreach _ _ hself _ ih =>
    obtain ⟨hbehind, hlines⟩ :=
      ih (hc.reaches (Tag.reaches_read hread)) (hjoined.reach hc (Tag.reaches_read hread) hreach)
    refine ⟨hbehind, fun line hline hindent hlt hle => ?_⟩
    by_cases hin : line.offset ≤ next.offset
    · have htags := elementTags_of_selfClosing hc hread hself
      rw [← (Tag.read_ok hread).2.1] at htags
      have hwithin := within_of_tag hc hread hline (isLineBlank_of_indent hindent) hlt hin
      exact enclosed_node run _ (Node.mem_preorder_self _) (.tag rfl rfl htags (.inl rfl) hwithin)
    · exact (hlines line hline hindent (by omega) hle).after _
  | @element _ tag _ c next _ _ closing inner run _ hread hreach _ _ hinner hclosing _ ihInner ihLater =>
    have hnext := hc.reaches (Tag.reaches_read hread)
    obtain ⟨hafter, hinside⟩ := ihInner hnext (hjoined.reach hc (Tag.reaches_read hread) hreach)
    obtain ⟨hbehind, hlines⟩ := ihLater (hnext.reaches hinner.reaches_next) hafter
    obtain ⟨closed, hspan, htags⟩ := hinner.elementTags hc hread hclosing
    refine ⟨hbehind, fun line hline hindent hlt hle => ?_⟩
    have hblank := isLineBlank_of_indent hindent
    by_cases hin : line.offset ≤ next.offset
    · exact enclosed_node run _ (Node.mem_preorder_self _)
        (.tag rfl rfl htags (.inl rfl) (within_of_tag hc hread hline hblank hlt hin))
    by_cases hend : line.offset ≤ inner.next.offset
    · rcases hinside line hline hindent (by omega) hend with ⟨m, hm, hencloses⟩ | ⟨span, hfound, hwithin⟩
      · refine enclosed_node run _ ?_ hencloses
        rw [Node.branch, Node.preorder]
        exact List.mem_cons_of_mem _ hm
      · rw [hclosing] at hfound
        cases hfound
        rw [← hspan] at hwithin
        exact enclosed_node run _ (Node.mem_preorder_self _) (.tag rfl rfl htags (.inr rfl) hwithin)
    · exact (hlines line hline hindent (by omega) hle).after _

/-- What is known of the lines of a paragraph with the span `s`: it has text, unless it starts on a
blank line that is not all spaces and tabs, and a blank line in it holds another blank, or stands in
one of its constructs. -/
structure ParagraphLines (cs : List Char) (n : Node) (s : Span) : Prop where
  span : n.span = some s
  text : s.start < s.stop ∨ ∃ line : Cursor, line.IsLine cs ∧ line.skipIndent.offset = s.start ∧
    line.isLineBlank = true ∧ line.skipIndent.isLineEnd = false
  blank : ∀ line : Cursor, line.IsLine cs → line.isLineBlank = true → s.start ≤ line.offset →
    line.lineEnd.offset ≤ s.stop → line.skipIndent.isLineEnd = false ∨ ∃ m ∈ n.preorder, Encloses cs line m

/-- Where a paragraph without text was read only blanks are left on the line. -/
theorem InlineTrace.isLineBlank_of_empty {c : Cursor} {run : InlineRun}
    (h : InlineTrace math (.paragraph container) none c c (paragraphEnd math container c) run)
    (hle : run.stop.offset ≤ c.offset) : c.isLineBlank = true := by
  have hreach := (h.next_eq_stop rfl).2 ▸ h.reaches_next
  have hsame := Reaches.eq_of_offset_eq (.refl c) hreach (Nat.le_antisymm hreach.le hle)
  obtain ⟨d, hd⟩ := h.endsParagraph ⟨c, rfl⟩
  have hblank := (paragraphEnd_ok math container d).2
  rwa [← hd, ← hsame] at hblank

theorem LineOpens.paragraphLines {line next : Cursor} {n : Node}
    (h : LineOpens math container line (.block n next)) (hline : line.StartsLine cs)
    (hkind : n.kind = .paragraph) : ∃ s, ParagraphLines cs n s := by
  have hc := h.on_start hline.on
  obtain ⟨-, hread⟩ := h.paragraph hkind
  obtain ⟨run, htrace, rfl, -⟩ := readParagraph_trace hc hread
  obtain ⟨hnone, hnext⟩ := htrace.next_eq_stop rfl
  refine ⟨_, rfl, ?_, ?_⟩
  · by_cases hlt : line.skipIndent.offset < run.stop.offset
    · exact .inl hlt
    · have hne := (reaches_skipIndent line).rest_ne_nil (rest_ne_nil_of_isLineEnd h.notBlank)
      have hblank := isLineBlank_of_skipIndent (htrace.isLineBlank_of_empty (by omega))
      exact .inr ⟨line, hline.isLine hne, rfl, hblank, h.notBlank⟩
  · intro l hl hblank hlo hhi
    cases hindent : l.skipIndent.isLineEnd with
    | false => exact .inl rfl
    | true =>
      right
      have hend := (path_lineEnd l).le
      by_cases hfirst : line.skipIndent.offset = l.offset
      · -- The first line of a paragraph is not one of spaces and tabs.
        have hsame : line.skipIndent = l := hc.eq_of_offset_eq hl.on hfirst
        rw [← hsame, skipIndent_skipIndent, h.notBlank] at hindent
        cases hindent
      · obtain ⟨-, hlines⟩ := htrace.enclosed hc (joined_paragraphEnd hc)
        simp only [spanTo] at hlo hhi
        have henclosed := hlines l hl hindent (by omega) (by rw [hnext]; omega)
        rcases henclosed with ⟨m, hm, hencloses⟩ | ⟨span, hspan, -⟩
        · exact ⟨m, List.mem_cons_of_mem _ hm, hencloses⟩
        · rw [hnone] at hspan
          cases hspan

/-- **Lines of spaces and tabs end paragraphs.** In the tree of a document, a paragraph holds such a
line only in an expression or a tag, and starts on none. -/
theorem paragraphs_end_at_indent {options : ParseOptions} {root : Node} (h : parse options cs = .ok root) :
    ∀ n ∈ root.preorder, n.kind = .paragraph → ∃ s, ParagraphLines cs n s := by
  refine forall_mem_parse h ?_ ?_ ?_ ?_ ?_ ?_
  · intro front flow nodes _ _ _ hkind
    cases hkind
  · intro dialect value span hkind
    cases hkind
  · intro container line next n hline hopens hkind
    exact hopens.paragraphLines hline hkind
  · intro m hm hkind
    exact absurd hkind (kind_below (forall_mem_preorder.mp hm).1).1
  · intro container line next tag _ _ _ hkind
    cases hkind
  · intro container line next after tag closed inner _ _ _ _ hkind
    cases hkind

/-- A blank line in an expression, which a paragraph goes on behind. -/
theorem paragraphs_end_at_indent_expression : ∃ root n,
    parse .standard "a \x7bx\n \t\n\x7d b".toList = .ok root ∧ n ∈ root.preorder ∧ n.kind = .paragraph ∧
      (∃ s, ParagraphLines "a \x7bx\n \t\n\x7d b".toList n s) ∧
      ∃ m ∈ n.preorder, Encloses "a \x7bx\n \t\n\x7d b".toList ⟨5, " \t\n\x7d b".toList⟩ m := by
  let n : Node := .branch .paragraph ⟨0, 11⟩
    [.leaf .text ⟨0, 2⟩, .leaf (.inlineExpression ⟨⟨3, 8⟩, false⟩) ⟨2, 9⟩, .leaf .text ⟨9, 11⟩]
  have h : parse .standard "a \x7bx\n \t\n\x7d b".toList = .ok (.branch .root ⟨0, 11⟩ [n]) :=
    ok_of_toOption (by decide +kernel)
  obtain ⟨s, hs⟩ := paragraphs_end_at_indent h n (by decide) rfl
  have hspan : s = ⟨0, 11⟩ := (Option.some.inj hs.span).symm
  have hline : IsLine "a \x7bx\n \t\n\x7d b".toList ⟨5, " \t\n\x7d b".toList⟩ :=
    ⟨⟨"a \x7bx\n".toList, by decide, by decide⟩, .inr (by decide), by decide⟩
  refine ⟨_, n, h, by decide, rfl, ⟨s, hs⟩, ?_⟩
  subst hspan
  have hblank := hs.blank _ hline (by decide) (by decide) (by decide)
  exact hblank.resolve_left (by decide)

/-- Blank lines of other characters neither end a paragraph nor keep it from starting. -/
theorem blank_lines_join : (¬ ∀ (cs : List Char) (options : ParseOptions) (root : Node),
      parse options cs = .ok root → ∀ n ∈ root.preorder, n.kind = .paragraph →
        ∃ s, n.span = some s ∧ s.start < s.stop) ∧
    ¬ ∀ (cs : List Char) (options : ParseOptions) (root : Node), parse options cs = .ok root →
      ∀ n ∈ root.preorder, n.kind = .paragraph → ∀ s, n.span = some s → ∀ line : Cursor, line.IsLine cs →
        line.isLineBlank = true → s.start ≤ line.offset → line.lineEnd.offset ≤ s.stop →
        ∃ m ∈ n.preorder, Encloses cs line m := by
  constructor
  · intro htext
    let n : Node := .branch .paragraph ⟨2, 2⟩ []
    have h : parse .standard "a\n\r\n".toList =
        .ok (.branch .root ⟨0, 4⟩ [.branch .paragraph ⟨0, 1⟩ [.leaf .text ⟨0, 1⟩], n]) :=
      ok_of_toOption (by decide +kernel)
    obtain ⟨s, hs, hlt⟩ := htext _ _ _ h n (by decide) rfl
    cases hs
    exact absurd hlt (by decide)
  · intro hblank
    let n : Node := .branch .paragraph ⟨0, 6⟩ [.leaf .text ⟨0, 6⟩]
    have h : parse .standard "a\r\n\r\nb".toList = .ok (.branch .root ⟨0, 6⟩ [n]) :=
      ok_of_toOption (by decide +kernel)
    have hline : IsLine "a\r\n\r\nb".toList ⟨3, "\r\nb".toList⟩ :=
      ⟨⟨"a\r\n".toList, by decide, by decide⟩, .inr (by decide), by decide⟩
    obtain ⟨m, hm, hencloses⟩ :=
      hblank _ _ _ h n (by decide) rfl _ rfl _ hline (by decide) (by decide) (by decide)
    have hkind : m.kind = .paragraph ∨ m.kind = .text := by
      simp only [n, Node.branch, Node.leaf, Node.preorder, preorderAll, List.append_nil, List.mem_cons,
        List.not_mem_nil, or_false] at hm
      rcases hm with rfl | rfl
      · exact .inl rfl
      · exact .inr rfl
    cases hencloses with
    | expression he => rw [he] at hkind; simp at hkind
    | tag he => rw [he] at hkind; simp at hkind

/-! ## Lines that interrupt -/

/-- Flow content from `line` on can hold the paragraph: the line opens it, or it starts on a later one. -/
def StartsFrom (math : Bool) (container : Option Tag) (line : Cursor) (m : Node) : Prop :=
  (∃ next, LineOpens math container line (.block m next)) ∨
    ∃ s, m.span = some s ∧ line.nextLine.offset ≤ s.start

/-- Seen from a line above, all paragraphs start on later lines. -/
theorem StartsFrom.below {line x : Cursor} {container' : Option Tag} {m : Node} (hline : line.On cs)
    (hx : line.Reaches x) (h : StartsFrom math container x.nextLine m) :
    StartsFrom math container' line m := by
  have hle := nextLine_le hx
  rcases h with ⟨next, hopens⟩ | ⟨s, hs, hstart⟩
  · obtain ⟨b, -, -, hspan, -⟩ := (hopens.takesLines (hline.reaches (hx.trans (reaches_nextLine x)))).ends
    exact .inr ⟨_, hspan, Nat.le_trans hle (reaches_skipIndent x.nextLine).le⟩
  · exact .inr ⟨s, hs, Nat.le_trans hle (Nat.le_trans (reaches_nextLine x.nextLine).le hstart)⟩

theorem FlowTrace.startsFrom {line : Cursor} {nodes : List Node} {closing : Option (Tag × Cursor)}
    (h : FlowTrace math container line nodes closing) (hline : line.On cs) :
    ∀ m ∈ preorderAll nodes, m.kind = .paragraph → StartsFrom math container line m := by
  induction h with
  | ended => simp [preorderAll]
  | @skip _ line _ _ _ _ _ ih =>
    intro m hm hkind
    exact (ih (hline.reaches (reaches_nextLine line)) m hm hkind).below hline (.refl line)
  | closed => simp [preorderAll]
  | @block _ line _ n _ _ hopens _ ih =>
    refine forall_mem_preorderAll_cons.mpr ⟨forall_mem_preorder.mpr ⟨fun _ => .inl ⟨_, hopens⟩, ?_⟩, ?_⟩
    · intro m hm hkind
      exact absurd hkind (kind_below (hopens.below hline m hm)).1
    · intro m hm hkind
      obtain ⟨x, hx, rfl⟩ := (hopens.takesLines hline).behind
      have hreach := (reaches_skipIndent line).trans hx
      exact (ih (hline.reaches (hreach.trans (reaches_nextLine x))) m hm hkind).below hline hreach
  | @selfClosing _ line next _ _ _ hopens _ _ ih =>
    have hnext := hopens.reaches_next
    refine forall_mem_preorderAll_cons.mpr ⟨?_, fun m hm hkind => ?_⟩
    · simp [Node.leaf, Node.preorder, preorderAll, Node.kind]
    · exact (ih (hline.reaches (hnext.trans (reaches_nextLine next))) m hm hkind).below hline hnext
  | @element _ line next after _ _ _ _ _ hopens _ hinner _ ihInner ihLater =>
    have hnext := hopens.reaches_next
    have hon := hline.reaches (hnext.trans (reaches_nextLine next))
    have hafter := hnext.trans (hinner.reaches_after (hline.reaches hnext))
    refine forall_mem_preorderAll_cons.mpr
      ⟨forall_mem_preorder.mpr ⟨by simp [Node.branch, Node.kind], ?_⟩, ?_⟩
    · intro m hm hkind
      exact (ihInner hon m hm hkind).below hline hnext
    · intro m hm hkind
      exact (ihLater (hline.reaches (hafter.trans (reaches_nextLine after))) m hm hkind).below hline hafter

/-- A blank line stands between the two spans. -/
def BlankBetween (cs : List Char) (s s' : Span) : Prop :=
  ∃ line : Cursor, line.IsLine cs ∧ line.isLineBlank = true ∧ s.stop < line.offset ∧
    line.nextLine.offset ≤ s'.start

/-- The line behind the end of a paragraph is blank if the next node is a paragraph with text. -/
theorem FlowTrace.blankBetween_next {stop : Cursor} {m : Node} {nodes : List Node}
    {closing : Option (Tag × Cursor)} (h : FlowTrace math container stop.nextLine (m :: nodes) closing)
    (hstop : stop.On cs) (hends : stop.EndsParagraph math container) (hkind : m.kind = .paragraph)
    {s s' : Span} (hs : s.stop = stop.offset) (hs' : m.span = some s') (htext : s'.start < s'.stop) :
    BlankBetween cs s s' := by
  have hstarts := startsLine_nextLine hstop
  cases h with
  | skip hne hend hlater =>
    obtain ⟨last, -, hlaid, -⟩ := hlater.laid (startsLine_nextLine hstarts.on)
    obtain ⟨t, ht, a, b, ha, -, -, rfl⟩ := hlaid.holds (List.mem_cons_self ..)
    rw [hs'] at ht
    cases ht
    have hlt := lt_nextLine hne
    exact ⟨stop.nextLine, hstarts.isLine hne, isLineBlank_of_indent hend, by omega, ha.le⟩
  | block hopens _ =>
    -- The line does not interrupt, so it is left of the paragraph above, and nothing is read from it.
    obtain ⟨hjoins, hread⟩ := hopens.paragraph hkind
    have hself := paragraphEnd_behind hends hjoins
    unfold readParagraph at hread
    rw [hself, inlineNodes_self] at hread
    cases hread
    cases hs'
    exact absurd htext (Nat.lt_irrefl _)
  | selfClosing => cases hkind
  | element => cases hkind

theorem FlowTrace.blankBetween {line : Cursor} {nodes before after : List Node} {m m' : Node}
    {closing : Option (Tag × Cursor)} (h : FlowTrace math container line nodes closing) (hline : line.On cs)
    (hnodes : nodes = before ++ m :: m' :: after) (hkind : m.kind = .paragraph)
    (hkind' : m'.kind = .paragraph) {s s' : Span} (hs : m.span = some s) (hs' : m'.span = some s')
    (htext : s'.start < s'.stop) : BlankBetween cs s s' := by
  obtain ⟨line', next, hline', hopens, hlater⟩ := h.sibling hline hnodes (by rw [hkind]; rfl)
  have hc := hopens.on_start hline'
  obtain ⟨-, hread⟩ := hopens.paragraph hkind
  obtain ⟨run, htrace, rfl, rfl⟩ := readParagraph_trace hc hread
  have hstop := hc.reaches ((htrace.next_eq_stop rfl).2 ▸ htrace.reaches_next)
  cases hs
  exact hlater.blankBetween_next hstop (htrace.endsParagraph ⟨_, rfl⟩) hkind' rfl hs' htext

/-- **Interruptions agree.** What is read from a line on that interrupts a paragraph holds no paragraph
that starts on this line. So in the tree of a document there is a blank line between a paragraph and
a paragraph with text that follows it. -/
theorem interruption_opens_no_paragraph (cs : List Char) :
    (∀ (math : Bool) (container : Option Tag) (line : Cursor), line.On cs →
      interrupts math container line = true →
      ∀ (fuel : Nat) (nodes : List Node) (closing : Option (Tag × Cursor)),
        line.rest.length < fuel → readFlow math fuel container line = .ok (nodes, closing) →
        ∀ m ∈ preorderAll nodes, m.kind = .paragraph →
          ∃ s, m.span = some s ∧ line.nextLine.offset ≤ s.start) ∧
    ∀ (options : ParseOptions) (root : Node), parse options cs = .ok root → ∀ p ∈ root.preorder,
      ∀ (before after : List Node) (m m' : Node) (s s' : Span), p.children = before ++ m :: m' :: after →
        m.kind = .paragraph → m'.kind = .paragraph → m.span = some s → m'.span = some s' →
        s'.start < s'.stop → BlankBetween cs s s' := by
  constructor
  · intro math container line hline hinterrupts fuel nodes closing hfuel hread m hm hkind
    rcases (flowTrace_of_readFlow hline hfuel hread).startsFrom hline m hm hkind with ⟨next, hopens⟩ | hbelow
    · rw [(hopens.paragraph hkind).1] at hinterrupts
      cases hinterrupts
    · exact hbelow
  · intro options root h p hp before after m m' s s' hchildren hkind hkind' hs hs' htext
    cases content_of_parse h p hp with
    | @flow _ front nodes _ _ heq hfront hline htrace _ _ =>
      rw [hchildren] at heq
      rcases List.append_eq_append_iff.mp heq with ⟨rest, hleft, hright⟩ | ⟨rest, -, hright⟩
      · -- The first paragraph is not in the front matter.
        cases rest with
        | nil =>
          have hnodes : nodes = [] ++ m :: m' :: after := hright.symm
          exact htrace.blankBetween hline.on hnodes hkind hkind' hs hs' htext
        | cons first rest =>
          simp only [List.cons_append, List.cons.injEq] at hright
          obtain ⟨dialect, value, hdialect⟩ := hfront m (by simp [hleft, hright.1])
          rw [hkind] at hdialect
          cases hdialect
      · exact htrace.blankBetween hline.on hright hkind hkind' hs hs' htext
    | whole hwhole => exact absurd hkind (kind_below (hwhole m (by simp [hchildren]))).1

/-- A heading, and two paragraphs with a line of one space between them. -/
theorem interruption_opens_no_paragraph_heading :
    interrupts false none (ofText "# h\na\n \nb".toList) = true ∧
      (∃ nodes, readFlow false 10 none (ofText "# h\na\n \nb".toList) = .ok (nodes, none) ∧
        ∀ m ∈ preorderAll nodes, m.kind = .paragraph → ∃ s, m.span = some s ∧ 4 ≤ s.start) ∧
      ∃ root m m', parse .standard "# h\na\n \nb".toList = .ok root ∧ m ∈ root.children ∧ m' ∈ root.children ∧
        m.kind = .paragraph ∧ m'.kind = .paragraph ∧ m.span = some ⟨4, 5⟩ ∧ m'.span = some ⟨8, 9⟩ ∧
        BlankBetween "# h\na\n \nb".toList ⟨4, 5⟩ ⟨8, 9⟩ := by
  obtain ⟨hopens, hbetween⟩ := interruption_opens_no_paragraph "# h\na\n \nb".toList
  let heading : Node := .branch (.heading 1) ⟨0, 3⟩ [.leaf .text ⟨2, 3⟩]
  let m : Node := .branch .paragraph ⟨4, 5⟩ [.leaf .text ⟨4, 5⟩]
  let m' : Node := .branch .paragraph ⟨8, 9⟩ [.leaf .text ⟨8, 9⟩]
  have hread : readFlow false 10 none (ofText "# h\na\n \nb".toList) = .ok ([heading, m, m'], none) :=
    ok_of_toOption (by decide +kernel)
  have h : parse .standard "# h\na\n \nb".toList = .ok (.branch .root ⟨0, 9⟩ [heading, m, m']) :=
    ok_of_toOption (by decide +kernel)
  refine ⟨by decide, ⟨_, hread, ?_⟩, _, m, m', h, by decide, by decide, rfl, rfl, rfl, rfl, ?_⟩
  · exact hopens false none _ (on_ofText _) (by decide) 10 _ _ (by decide) hread
  · exact hbetween _ _ h _ (Node.mem_preorder_self _) [heading] [] m m' _ _ rfl rfl rfl rfl rfl (by decide)

end Mdx

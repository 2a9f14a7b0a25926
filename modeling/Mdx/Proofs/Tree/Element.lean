/-
How elements and expressions are written. An element is one tag, or two tags with
its children and only blanks between them, and an angle bracket starts each tag.
An expression is a text in braces. The tree keeps the spans of both and not where
their tags meet their content, so this is read off the traces (`isWritten_of_parse`).
-/
import Mdx.Proofs.Trace.Document
import Mdx.Proofs.Script.Matching

namespace Mdx

open Cursor

/-- The tag is written between the two places. -/
structure Tag.Stands (tag : Tag) (a b : Cursor) : Prop where
  angle : a.rest.head? = some '<'
  read : Tag.read a = .ok (tag, b)

/-- How an element is written. -/
inductive ElementText (cs : List Char) (e : Element) : Node → Prop
  | single {kind : NodeKind} {tag : Tag} {a b : Cursor} :
    a.On cs → tag.Stands a b → tag.element = e → ElementText cs e (.leaf kind (a.spanTo b.offset))
  | pair {kind : NodeKind} {tag closing : Tag} {a x y b : Cursor} {nodes : List Node} :
    a.On cs → tag.Stands a x → tag.element = e → Laid isBlank x nodes y → closing.Stands y b →
    closing.closing = true → ElementText cs e (.branch kind (a.spanTo b.offset) nodes)

/-- How an expression is written. -/
inductive ExpressionText (cs : List Char) (e : Expression) : Node → Prop
  | braces {kind : NodeKind} {a x y b : Cursor} {body : List Char} :
    a.On cs → a.Path ['\x7b'] x → x.Path body y → y.Path ['\x7d'] b → e.body = x.spanTo y.offset →
    Script.Braced ('\x7b' :: body ++ ['\x7d']) e.isEmpty →
    ExpressionText cs e (.leaf kind (a.spanTo b.offset))

/-- The node is written as its kind asks for. -/
structure IsWritten (cs : List Char) (n : Node) : Prop where
  element : ∀ e, n.kind.element? = some e → ElementText cs e n
  expression : ∀ e, n.kind.expression? = some e → ExpressionText cs e n

variable {cs : List Char} {math : Bool} {container : Option Tag} {n : Node}

/-! ## Laid nodes -/

/-- What is left between the last node and the end. -/
theorem Laid.lastGap {p : Char → Bool} {x y : Cursor} {nodes : List Node} (h : Laid p x nodes y)
    (hne : nodes ≠ []) : ∃ y' gap, x.Reaches y' ∧ y'.Path gap y ∧ (∀ ch ∈ gap, p ch = true) ∧
      nodes.reverse.findSome? Node.stop? = some y'.offset := by
  induction h with
  | nil => exact absurd rfl hne
  | @cons _ a b _ _ _ nodes hgap _ hab hspan hrest ih =>
    have hb := hgap.reaches.trans hab
    by_cases hnodes : nodes = []
    · subst hnodes
      cases hrest with
      | nil hlast hp => exact ⟨b, _, hb, hlast, hp, by simp [Node.stop?, hspan, spanTo]⟩
    · obtain ⟨y', gap, hy, hpath, hp, hlast⟩ := ih hnodes
      exact ⟨y', gap, hb.trans hy, hpath, hp, by simp [List.findSome?_append, hlast]⟩

/-- What is left before the first node and behind the last one, around the span of the children. -/
theorem Laid.gaps {p : Char → Bool} {x y : Cursor} {nodes : List Node} (h : Laid p x nodes y)
    (hne : nodes ≠ []) (kind : NodeKind) (span : Option Span) : ∃ (x' y' : Cursor) (gap gap' : List Char),
      x.Path gap x' ∧ (∀ ch ∈ gap, p ch = true) ∧ x.Reaches y' ∧ y'.Path gap' y ∧
        (∀ ch ∈ gap', p ch = true) ∧ (Node.mk kind span nodes).childrenSpan = some (x'.spanTo y'.offset) := by
  obtain ⟨y', gap', hy, hlast, hp', hstop⟩ := h.lastGap hne
  cases h with
  | nil => exact absurd rfl hne
  | @cons _ a _ _ gap _ _ hgap hp _ hspan _ =>
    refine ⟨a, y', gap, gap', hgap, hp, hy, hlast, hp', ?_⟩
    have hstart : Node.start? _ = some a.offset := congrArg (Option.map Span.start) hspan
    rw [Node.childrenSpan, Node.children, List.findSome?_cons, hstart, hstop]
    rfl

/-! ## Single nodes -/

theorem isWritten_of_kind (helement : n.kind.element? = none) (hexpression : n.kind.expression? = none) :
    IsWritten cs n :=
  ⟨fun e he => by simp [helement] at he, fun e he => by simp [hexpression] at he⟩

theorem ElementText.isWritten {e : Element} (h : ElementText cs e n) (he : n.kind.element? = some e) :
    IsWritten cs n := by
  refine ⟨fun e' he' => ?_, fun e' he' => ?_⟩
  · cases he.symm.trans he'
    exact h
  · generalize n.kind = kind at he he'
    cases kind with
    | blockElement | inlineElement => cases he'
    | _ => cases he

theorem ExpressionText.isWritten {e : Expression} (h : ExpressionText cs e n)
    (he : n.kind.expression? = some e) : IsWritten cs n := by
  refine ⟨fun e' he' => ?_, fun e' he' => ?_⟩
  · generalize n.kind = kind at he he'
    cases kind with
    | blockExpression | inlineExpression => cases he'
    | _ => cases he
  · cases he.symm.trans he'
    exact h

/-- A property of a node without children, as one of all nodes below it. -/
theorem forall_mem_leaf {P : Node → Prop} {kind : NodeKind} {s : Span} (h : P (.leaf kind s)) :
    ∀ m ∈ (Node.leaf kind s).preorder, P m :=
  forall_mem_preorder.mpr ⟨h, by simp [Node.leaf, Node.children, preorderAll]⟩

theorem isWritten_tag {kind : NodeKind} {tag : Tag} {a b : Cursor} (ha : a.On cs) (h : tag.Stands a b)
    (he : kind.element? = some tag.element) : IsWritten cs (.leaf kind tag.span) := by
  rw [(Tag.read_ok h.read).2.1]
  exact (ElementText.single ha h rfl).isWritten he

theorem expressionText_of_closingBrace {kind : NodeKind} {c : Cursor} {rest : List Char}
    {close : Script.ClosingBrace} (hc : c.On cs) (hrest : c.rest = '\x7b' :: rest)
    (hclose : Script.closingBrace c = .ok close) :
    ExpressionText cs ⟨(c.drop 1).spanTo close.place.offset, close.isEmpty⟩
      (.leaf kind (c.spanTo (close.place.drop 1).offset)) := by
  obtain ⟨body, hbody, hbrace, hwhole⟩ := Script.closingBrace_body hclose hrest
  obtain ⟨text, hp, hbraced⟩ := Script.braced_of_closingBrace hrest hclose
  have htext : text = '\x7b' :: body ++ ['\x7d'] := hp.upTo.symm.trans hwhole.upTo
  exact .braces hc (path_cons hrest) hbody hbrace rfl (htext ▸ hbraced)

theorem isWritten_readFlowExpression? {c next : Cursor} (hc : c.On cs)
    (h : readFlowExpression? c = .ok (some (n, next))) : ∀ m ∈ n.preorder, IsWritten cs m := by
  unfold readFlowExpression? at h
  split at h
  · next hbrace =>
    obtain ⟨rest, hrest⟩ := List.head?_eq_some_iff.mp (beq_iff_eq.mp hbrace)
    obtain ⟨close, hclose, h⟩ := ok_of_bind h
    dsimp only at h
    split at h
    · cases h
      exact forall_mem_leaf ((expressionText_of_closingBrace hc hrest hclose).isWritten rfl)
    · cases h
  · cases h

/-! ## Inline content -/

section Inline

variable {scope : Scope} {enclosing : Option Tag} {textStart c stop : Cursor} {run : InlineRun}

/-- The text that has no node yet, before nodes that are laid out behind it. -/
theorem laid_textBetween {p : Char → Bool} {a b d : Cursor} {nodes : List Node} (hab : a.Reaches b)
    (h : Laid p b nodes d) : Laid p a (textBetween a.offset b.offset ++ nodes) d := by
  unfold textBetween
  split
  · exact .cons (.refl a) (by simp) hab rfl h
  · next hle =>
    have heq : a = b := Reaches.eq_of_offset_eq (.refl a) hab (Nat.le_antisymm hab.le (Nat.le_of_not_lt hle))
    rw [List.nil_append, heq]
    exact h

/-- A text and a node before the nodes of a run. -/
theorem laid_after {p : Char → Bool} {a b d y : Cursor} {m : Node} (hab : a.Reaches b) (hbd : b.Reaches d)
    (hspan : m.span = some (b.spanTo d.offset)) (h : Laid p d run.nodes y) :
    Laid p a (run.after (textBetween a.offset b.offset ++ [m])).nodes y := by
  show Laid p a ((textBetween a.offset b.offset ++ [m]) ++ run.nodes) y
  rw [List.append_assoc, List.singleton_append]
  exact laid_textBetween hab (.cons (.refl b) (by simp) hbd hspan h)

/-- The nodes of a run that a closing tag ends are laid out up to this tag. -/
theorem InlineTrace.laid_closing {span : Span} (h : InlineTrace math scope enclosing textStart c stop run)
    (htext : textStart.Reaches c) (hclosing : run.closing = some span) : ∃ (y : Cursor) (tag : Tag),
      Laid isBlank textStart run.nodes y ∧ tag.Stands y run.next ∧ tag.closing = true ∧ tag.span = span := by
  induction h generalizing span with
  | stopped => cases hclosing
  | skip hnext _ _ ih => exact ih (htext.trans hnext.reaches) hclosing
  | marked _ hnext _ _ ih =>
    obtain ⟨y, tag, hlaid, hread⟩ := ih (.refl _) hclosing
    exact ⟨y, tag, laid_after htext hnext.reaches rfl hlaid, hread⟩
  | expression _ hclose _ _ _ ih =>
    obtain ⟨y, tag, hlaid, hread⟩ := ih (.refl _) hclosing
    exact ⟨y, tag, laid_after htext (Tag.reaches_closeBrace hclose) rfl hlaid, hread⟩
  | @closed opening tag _ c _ _ _ hangle hread _ _ htag _ =>
    cases hclosing
    have hlaid := laid_textBetween (p := isBlank) htext (.nil (.refl c) (by simp))
    rw [List.append_nil] at hlaid
    exact ⟨c, tag, hlaid, ⟨hangle, hread⟩, htag, rfl⟩
  | selfClosing _ hread _ _ _ _ _ ih =>
    obtain ⟨y, tag, hlaid, hlater⟩ := ih (.refl _) hclosing
    exact ⟨y, tag, laid_after htext (Tag.reaches_read hread) (congrArg some (Tag.read_ok hread).2.1) hlaid,
      hlater⟩
  | element _ hread _ _ _ hinner hclosed _ ihInner ihLater =>
    obtain ⟨z, closing, -, hstands, -, rfl⟩ := ihInner (.refl _) hclosed
    obtain ⟨y, tag, hlaid, hlater⟩ := ihLater (.refl _) hclosing
    refine ⟨y, tag, laid_after htext ((Tag.reaches_read hread).trans hinner.reaches_next) ?_ hlaid, hlater⟩
    rw [(Tag.read_ok hstands.read).2.1]
    rfl

theorem InlineTrace.isWritten (h : InlineTrace math scope enclosing textStart c stop run) (hc : c.On cs) :
    ∀ m ∈ preorderAll run.nodes, IsWritten cs m := by
  have textOnly (a b : Nat) : ∀ m ∈ preorderAll (textBetween a b), IsWritten cs m := by
    unfold textBetween
    split
    · exact forall_mem_preorderAll_cons.mpr
        ⟨forall_mem_leaf (isWritten_of_kind rfl rfl), by simp [preorderAll]⟩
    · simp [preorderAll]
  induction h with
  | stopped => exact textOnly _ _
  | skip hnext _ _ ih => exact ih (hc.reaches hnext.reaches)
  | marked hkind hnext _ _ ih =>
    refine InlineRun.forall_mem_after (isWritten_of_kind rfl rfl) (forall_mem_leaf ?_)
      (ih (hc.reaches hnext.reaches))
    unfold markedKind? at hkind
    split at hkind
    · cases hkind
      exact isWritten_of_kind rfl rfl
    · split at hkind
      · cases hkind
        exact isWritten_of_kind rfl rfl
      · cases hkind
  | expression hrest hclose _ _ _ ih =>
    exact InlineRun.forall_mem_after (isWritten_of_kind rfl rfl)
      (forall_mem_leaf ((expressionText_of_closingBrace hc hrest hclose).isWritten rfl))
      (ih (hc.reaches (Tag.reaches_closeBrace hclose)))
  | closed => exact textOnly _ _
  | selfClosing hangle hread _ _ _ _ _ ih =>
    exact InlineRun.forall_mem_after (isWritten_of_kind rfl rfl)
      (forall_mem_leaf (isWritten_tag hc ⟨hangle, hread⟩ rfl)) (ih (hc.reaches (Tag.reaches_read hread)))
  | @element _ tag _ c next _ _ closing inner _ hangle hread _ _ _ hinner hclosed _ ihInner ihLater =>
    have hnext := hc.reaches (Tag.reaches_read hread)
    obtain ⟨y, last, hlaid, hstands, hlast, rfl⟩ := hinner.laid_closing (.refl _) hclosed
    have hpair : IsWritten cs (.branch (.inlineElement tag.element) (c.spanTo last.span.stop) inner.nodes) := by
      rw [(Tag.read_ok hstands.read).2.1]
      exact (ElementText.pair hc ⟨hangle, hread⟩ rfl hlaid hstands hlast).isWritten rfl
    exact InlineRun.forall_mem_after (isWritten_of_kind rfl rfl)
      (forall_mem_preorder.mpr ⟨hpair, ihInner hnext⟩) (ihLater (hnext.reaches hinner.reaches_next))

end Inline

/-! ## Documents -/

theorem isWritten_readModule {c next : Cursor} (h : readModule c = .ok (n, next)) :
    ∀ m ∈ n.preorder, IsWritten cs m := by
  unfold readModule at h
  obtain ⟨⟨⟩, -, h⟩ := ok_of_bind h
  cases h
  refine forall_mem_preorder.mpr ⟨isWritten_of_kind rfl rfl, fun m hm => ?_⟩
  have hmem := mem_of_mem_preorderAll (fun s hs => ?_) hm
  · have hkind := kind_of_mem_moduleStatements hmem
    exact isWritten_of_kind (by rw [hkind]; rfl) (by rw [hkind]; rfl)
  · obtain ⟨part, -, rfl⟩ := List.mem_map.mp hs
    rfl

theorem NodeKind.expression?_of_isFenced {kind : NodeKind} (h : kind.isFenced = true) :
    kind.expression? = none := by
  revert h
  cases kind <;> simp [isFenced, expression?]

theorem LineOpens.isWritten {line next : Cursor} (h : LineOpens math container line (.block n next))
    (hline : line.On cs) : ∀ m ∈ n.preorder, IsWritten cs m := by
  have hc := h.on_start hline
  cases opens_of_openLine h.opens with
  | moduleBlock _ _ _ hread => exact isWritten_readModule hread
  | @fenced fence _ =>
    have hfenced := kind_readFenced fence container line.skipIndent
    exact forall_mem_leaf (isWritten_of_kind (NodeKind.element?_of_isFenced hfenced)
      (NodeKind.expression?_of_isFenced hfenced))
  | @heading depth _ _ _ hread =>
    unfold readHeading at hread
    obtain ⟨⟨nodes, stop⟩, hnodes, hread⟩ := ok_of_bind hread
    cases hread
    have hr := (readsThrough math cs).heading_starts depth _ hc
    obtain ⟨run, htrace, rfl, -⟩ := inlineTrace_of_inlineNodes hr hnodes
    exact forall_mem_preorder.mpr ⟨isWritten_of_kind rfl rfl, htrace.isWritten hr.on⟩
  | thematicBreak => exact forall_mem_leaf (isWritten_of_kind rfl rfl)
  | expression hread => exact isWritten_readFlowExpression? hc hread
  | paragraph _ _ _ _ hread =>
    obtain ⟨run, htrace, rfl, -⟩ := readParagraph_trace hc hread
    exact forall_mem_preorder.mpr ⟨isWritten_of_kind rfl rfl, htrace.isWritten hc⟩

theorem LineOpens.stands {line next : Cursor} {tag : Tag} (h : LineOpens math container line (.element tag next)) :
    tag.Stands line.skipIndent next := by
  obtain ⟨hstarts, hread, -⟩ := h.tag
  refine ⟨?_, hread⟩
  unfold Tag.startsAt at hstarts
  split at hstarts
  · next ch rest hrest => rw [hrest, List.head?_cons]
  · cases hstarts

/-- The content of an element over several lines is laid out between its tags. -/
theorem FlowTrace.laid_closing {tag closed : Tag} {next after : Cursor} {inner : List Node}
    (h : FlowTrace math (some tag) next.nextLine inner (some (closed, after))) (hnext : next.On cs)
    (hblank : next.isLineBlank = true) :
    ∃ y, Laid isBlank next inner y ∧ closed.Stands y after ∧ closed.closing = true := by
  obtain ⟨last, -, hlaid, hend⟩ := h.laid (startsLine_nextLine hnext)
  obtain ⟨gap, hgap, hall⟩ := path_nextLine_of_blank hblank
  cases hend with
  | closed hslash hread =>
    obtain ⟨_, -, hread, -, -⟩ := readClosing_ok hread
    obtain ⟨rest, hrest⟩ := startsWith_closing hslash
    obtain ⟨indent, hindent, hall'⟩ := path_skipIndent last
    refine ⟨last.skipIndent, ?_, ⟨by rw [hrest]; rfl, hread⟩, Tag.closing_of_slash hread hrest⟩
    have hlater := (Laid.before hgap hall hlaid).append (.nil hindent hall')
    rwa [List.append_nil] at hlater

/-- The elements and the expressions of a document are written as their kinds ask for. -/
theorem isWritten_of_parse {options : ParseOptions} {root : Node} (h : parse options cs = .ok root) :
    ∀ m ∈ root.preorder, IsWritten cs m := by
  obtain ⟨front, flow, nodes, hread, hflow, htrace, rfl⟩ := parse_trace h
  refine forall_mem_preorder.mpr ⟨isWritten_of_kind rfl rfl, forall_mem_preorderAll_append.mpr ⟨?_,
    htrace.forall_mem (fun hline hopens => hopens.isWritten hline.on) ?_ ?_ hflow⟩⟩
  · rcases (readFront_ok hread).2 with rfl | ⟨dialect, value, span, rfl⟩
    · simp [preorderAll]
    · exact forall_mem_preorderAll_cons.mpr
        ⟨forall_mem_leaf (isWritten_of_kind rfl rfl), by simp [preorderAll]⟩
  · intro container line next tag hline hopens _
    exact isWritten_tag (hopens.on_start hline.on) hopens.stands rfl
  · intro container line next after tag closed inner hline hopens _ hinner
    have hstart := hopens.on_start hline.on
    obtain ⟨-, hread, hblank⟩ := hopens.tag
    obtain ⟨y, hlaid, hstands, hclosing⟩ := hinner.laid_closing (hstart.reaches (Tag.reaches_read hread)) hblank
    rw [(Tag.read_ok hread).2.1, (Tag.read_ok hstands.read).2.1]
    exact (ElementText.pair hstart hopens.stands rfl hlaid hstands hclosing).isWritten rfl

end Mdx

/-
How inline content is read, as a relation: `InlineTrace` has one rule for each
thing that can stand at the cursor, and every run that is read has a trace
(`inlineTrace_of_readInline`). What holds of all runs is then proved along their
traces, one case a rule, without the reader's fuel and tests.
-/
import Mdx.Proofs.Progress.Inline

namespace Mdx

open Cursor

/-- The kinds of nodes that inline content is made of. -/
def NodeKind.isInline : NodeKind → Bool
  | text | inlineCode | inlineMath | inlineExpression _ | inlineElement _ => true
  | _ => false

/-- Reading from `c` to `stop` gives the run; the text from `textStart` to `c` has no node yet. A
construct that runs over `stop` moves it. -/
inductive InlineTrace (math : Bool) (scope : Scope) :
    (enclosing : Option Tag) → (textStart c stop : Cursor) → InlineRun → Prop
  /-- The end of the content. -/
  | stopped {enclosing : Option Tag} {textStart c : Cursor} :
    InlineTrace math scope enclosing textStart c c ⟨textBetween textStart.offset c.offset, none, c, c⟩
  /-- What joins the text: a character, an escape, or markers that open nothing. -/
  | skip {enclosing : Option Tag} {textStart c next stop : Cursor} {run : InlineRun} :
    c.Before next → next.Reaches stop → InlineTrace math scope enclosing textStart next stop run →
    InlineTrace math scope enclosing textStart c stop run
  | marked {enclosing : Option Tag} {textStart c next stop : Cursor} {ch : Char} {kind : NodeKind}
      {run : InlineRun} :
    markedKind? math ch = some kind → c.Before next → next.Reaches stop →
    InlineTrace math scope enclosing next next stop run →
    InlineTrace math scope enclosing textStart c stop
      (run.after (textBetween textStart.offset c.offset ++ [.leaf kind (c.spanTo next.offset)]))
  | expression {enclosing : Option Tag} {textStart c stop stop' : Cursor} {rest : List Char}
      {close : Script.ClosingBrace} {run : InlineRun} :
    c.rest = '\x7b' :: rest → Script.closingBrace c = .ok close →
    scope.reach math c (close.place.drop 1) stop = .ok stop' → (close.place.drop 1).Reaches stop' →
    InlineTrace math scope enclosing (close.place.drop 1) (close.place.drop 1) stop' run →
    InlineTrace math scope enclosing textStart c stop
      (run.after (textBetween textStart.offset c.offset ++
        [.leaf (.inlineExpression ⟨(c.drop 1).spanTo close.place.offset, close.isEmpty⟩)
          (c.spanTo (close.place.drop 1).offset)]))
  /-- The tag that closes the enclosing one ends the run. -/
  | closed {opening tag : Tag} {textStart c next stop stop' : Cursor} :
    c.rest.head? = some '<' → Tag.read c = .ok (tag, next) → scope.reach math c next stop = .ok stop' → next.Reaches stop' →
    tag.closing = true → opening.closedBy tag = true →
    InlineTrace math scope (some opening) textStart c stop
      ⟨textBetween textStart.offset c.offset, some tag.span, next, stop'⟩
  | selfClosing {enclosing : Option Tag} {tag : Tag} {textStart c next stop stop' : Cursor}
      {run : InlineRun} :
    c.rest.head? = some '<' → Tag.read c = .ok (tag, next) → scope.reach math c next stop = .ok stop' →
    next.Reaches stop' → tag.closing = false → tag.selfClosing = true →
    InlineTrace math scope enclosing next next stop' run →
    InlineTrace math scope enclosing textStart c stop
      (run.after (textBetween textStart.offset c.offset ++ [.leaf (.inlineElement tag.element) tag.span]))
  | element {enclosing : Option Tag} {tag : Tag} {textStart c next stop stop' : Cursor} {closing : Span}
      {inner run : InlineRun} :
    c.rest.head? = some '<' → Tag.read c = .ok (tag, next) → scope.reach math c next stop = .ok stop' →
    next.Reaches stop' → tag.closing = false → InlineTrace math scope (some tag) next next stop' inner →
    inner.closing = some closing →
    InlineTrace math scope enclosing inner.next inner.next inner.stop run →
    InlineTrace math scope enclosing textStart c stop
      (run.after (textBetween textStart.offset c.offset ++
        [.branch (.inlineElement tag.element) (c.spanTo closing.stop) inner.nodes]))

section Reader

variable {cs : List Char} {math : Bool} {scope : Scope} {fuel : Nat} {enclosing : Option Tag}
  {textStart c stop : Cursor} {run : InlineRun}

/-- With enough fuel every run that is read has a trace. -/
def TracesInline (cs : List Char) (math : Bool) (scope : Scope) (fuel : Nat) : Prop :=
  ∀ {enclosing : Option Tag} {textStart c stop : Cursor} {run : InlineRun}, Reading cs textStart c stop →
    c.rest.length < fuel → readInline math scope fuel enclosing textStart c stop = .ok run →
    InlineTrace math scope enclosing textStart c stop run

/-- What is behind a node is read from its end on. -/
theorem TracesInline.behind (htraces : TracesInline cs math scope fuel) (hc : c.On cs)
    (hfuel : c.rest.length < fuel + 1) {next : Cursor} (hnext : c.Before next) (hstop : next.Reaches stop)
    (hset : stop.Settled) (h : readInline math scope fuel enclosing next next stop = .ok run) :
    InlineTrace math scope enclosing next next stop run := by
  have hlt := hnext.length_lt
  exact htraces ⟨hc.reaches hnext.reaches, .refl _, hstop, fun _ => hset⟩ (by omega) h

theorem TracesInline.tag (htraces : TracesInline cs math scope fuel) (hr : Reading cs textStart c stop)
    (hfuel : c.rest.length < fuel + 1) (hset : stop.Settled) (hangle : c.rest.head? = some '<')
    {tag : Tag} {next stop' : Cursor} (hread : Tag.read c = .ok (tag, next))
    (hreach : scope.reach math c next stop = .ok stop')
    (h : (if tag.closing then
        match enclosing with
        | none => throw ⟨.unexpectedClosingTag tag.display none, tag.span⟩
        | some opening =>
          if opening.closedBy tag then
            return ⟨textBetween textStart.offset c.offset, some tag.span, next, stop'⟩
          else throw ⟨.unexpectedClosingTag tag.display (some opening.display), tag.span⟩
      else if tag.selfClosing then do
        let run ← readInline math scope fuel enclosing next next stop'
        return run.after (textBetween textStart.offset c.offset ++
          [.leaf (.inlineElement tag.element) tag.span])
      else do
        let inner ← readInline math scope fuel (some tag) next next stop'
        match inner.closing with
        | none => throw ⟨.unclosedTag tag.display scope.enclosure, c.byteSpan⟩
        | some closing =>
          let run ← readInline math scope fuel enclosing inner.next inner.next inner.stop
          let node := Node.branch (.inlineElement tag.element) (c.spanTo closing.stop) inner.nodes
          return run.after (textBetween textStart.offset c.offset ++ [node]) :
      Except ParseError InlineRun) = .ok run) :
    InlineTrace math scope enclosing textStart c stop run := by
  obtain ⟨t, ht, hp⟩ := Tag.path_read hread (by rintro hnil; simp [hnil] at hangle)
  have hnext := hp.before ht
  obtain ⟨hstop, hset', -⟩ := reach_ok hreach hp.reaches hr.ahead hset
  split at h
  · next hclosing =>
    cases enclosing with
    | none => cases h
    | some opening =>
      dsimp only at h
      split at h
      · next hclosed =>
        cases h
        exact .closed hangle hread hreach hstop hclosing hclosed
      · cases h
  next hclosing =>
  have hclosing : tag.closing = false := by simpa using hclosing
  split at h
  · next hself =>
    obtain ⟨later, hlater, h⟩ := ok_of_bind h
    cases h
    exact .selfClosing hangle hread hreach hstop hclosing hself
      (htraces.behind hr.on_cursor hfuel hnext hstop hset' hlater)
  · obtain ⟨inner, hinner, h⟩ := ok_of_bind h
    have htrace := htraces.behind hr.on_cursor hfuel hnext hstop hset' hinner
    split at h
    · cases h
    · next closing hclosed =>
      obtain ⟨later, hlater, h⟩ := ok_of_bind h
      cases h
      -- The place behind the closing tag, from where reading goes on, is that of the inner run.
      have hlt := hnext.length_lt
      obtain ⟨hreads, -, -⟩ := readInline_ok cs math scope fuel
        ⟨hr.on_cursor.reaches hnext.reaches, .refl _, hstop, fun _ => hset'⟩ (by omega) hinner
      cases hreads with
      | stopped => cases hclosed
      | closed htiled hread' hclose henc hpair hstop'' hset'' =>
        have hbehind := hnext.trans_reaches (htiled.laid.reaches.trans (Tag.reaches_read hread'))
        exact .element hangle hread hreach hstop hclosing htrace hclosed
          (htraces.behind hr.on_cursor hfuel hbehind hstop'' hset'' hlater)

/-- Every run that is read has a trace. -/
theorem inlineTrace_of_readInline (cs : List Char) (math : Bool) (scope : Scope) (fuel : Nat) :
    TracesInline cs math scope fuel := by
  induction fuel with
  | zero => intro _ _ _ _ _ _ hfuel; omega
  | succ fuel ih =>
    intro enclosing textStart c stop run hr hfuel h
    simp only [readInline, inlineRound] at h
    split at h
    · next hle =>
      have heq : c = stop := Reaches.eq_of_offset_eq (.refl c) hr.ahead (Nat.le_antisymm hr.ahead.le hle)
      subst heq
      simp only [Nat.min_self, Except.ok.injEq] at h
      subst h
      exact .stopped
    next hlt =>
    have hset := hr.settled (by omega)
    obtain ⟨u, hu⟩ := hr.ahead
    obtain ⟨ch, u, rfl⟩ := List.exists_cons_of_ne_nil (hu.ne_nil (by omega))
    have hrest : c.rest = ch :: (u ++ stop.rest) := hu.rest
    have skip : ∀ {next : Cursor}, c.Before next → next.Reaches stop →
        readInline math scope fuel enclosing textStart next stop = .ok run →
        InlineTrace math scope enclosing textStart c stop run := by
      intro next hnext hstop h
      have hshorter := hnext.length_lt
      exact .skip hnext hstop
        (ih ⟨hr.on, hr.text.trans hnext.reaches, hstop, fun _ => hset⟩ (by omega) h)
    have skip_drop : ∀ {n : Nat}, 0 < n → n ≤ u.length + 1 →
        readInline math scope fuel enclosing textStart (c.drop n) stop = .ok run →
        InlineTrace math scope enclosing textStart c stop run := by
      intro n hpos hn h
      obtain ⟨t, ht, hp, hstop⟩ := path_drop_of_le hu hpos (by simpa using hn)
      exact skip (hp.before ht) hstop h
    rw [hrest] at h
    dsimp only at h
    split at h
    · next kind hkind =>
      obtain ⟨next, t, hspan, ht, hp, hstop⟩ := markedSpan_ok hu
      rcases hspan with hspan | hspan
      · rw [hspan] at h
        obtain ⟨later, hlater, h⟩ := ok_of_bind h
        cases h
        exact .marked hkind (hp.before ht) hstop
          (ih.behind hr.on_cursor hfuel (hp.before ht) hstop hset hlater)
      · rw [hspan] at h
        exact skip (hp.before ht) hstop h
    split at h
    · by_cases hesc : ((u ++ stop.rest).head?.any isAsciiPunctuation) = true
      · simp only [hesc, if_true] at h
        have hpos := hset.length_pos_of_escaped hesc
        exact skip_drop (by omega) (by omega) h
      · simp only [hesc, Bool.false_eq_true, if_false] at h
        exact skip_drop (by omega) (by omega) h
    split at h
    · next hbrace =>
      have hopen : c.rest = '\x7b' :: (u ++ stop.rest) := by rw [hrest, beq_iff_eq.mp hbrace]
      obtain ⟨close, hclose, h⟩ := ok_of_bind h
      obtain ⟨stop', hreach, h⟩ := ok_of_bind h
      obtain ⟨later, hlater, h⟩ := ok_of_bind h
      cases h
      obtain ⟨body, -, -, hwhole⟩ := Script.closingBrace_body hclose hopen
      obtain ⟨hstop, hset', -⟩ := reach_ok hreach hwhole.reaches hr.ahead hset
      exact .expression hopen hclose hreach hstop
        (ih.behind hr.on_cursor hfuel (hwhole.before (by simp)) hstop hset' hlater)
    split at h
    · next hopen =>
      rw [Bool.and_eq_true, beq_iff_eq] at hopen
      obtain ⟨⟨tag, next⟩, hread, h⟩ := ok_of_bind h
      obtain ⟨stop', hreach, h⟩ := ok_of_bind h
      exact ih.tag hr hfuel hset (by rw [hrest, hopen.1]; rfl) hread hreach h
    · exact skip_drop (by omega) (by omega) h

end Reader

/-! ## What holds of every run -/

/-- All nodes of a run behind a text and a node have what these and the run's nodes have. -/
theorem InlineRun.forall_mem_after {P : Node → Prop} {run : InlineRun} {a b : Nat} {n : Node}
    (htext : P (.leaf .text ⟨a, b⟩)) (hn : ∀ m ∈ n.preorder, P m) (hrun : ∀ m ∈ preorderAll run.nodes, P m) :
    ∀ m ∈ preorderAll (run.after (textBetween a b ++ [n])).nodes, P m := by
  show ∀ m ∈ preorderAll ((textBetween a b ++ [n]) ++ run.nodes), P m
  rw [forall_mem_preorderAll_append, forall_mem_preorderAll_append, forall_mem_preorderAll_cons]
  refine ⟨⟨fun m hm => ?_, hn, by simp [preorderAll]⟩, hrun⟩
  unfold textBetween at hm
  split at hm
  · simp only [Node.leaf, preorderAll, Node.preorder, List.append_nil, List.mem_singleton] at hm
    exact hm ▸ htext
  · simp [preorderAll] at hm

/-- A node of inline content: it is of an inline kind, and an element starts with a tag that opens. -/
structure InlineNode (cs : List Char) (m : Node) : Prop where
  inline : m.kind.isInline = true
  opens : ∀ e, m.kind.element? = some e → ∃ (a x : Cursor) (tag : Tag), a.On cs ∧
    m.start? = some a.offset ∧ Tag.read a = .ok (tag, x) ∧ tag.closing = false

theorem isInline_of_markedKind? {math : Bool} {ch : Char} {kind : NodeKind}
    (h : markedKind? math ch = some kind) : kind.isInline = true ∧ kind.element? = none := by
  unfold markedKind? at h
  split at h
  · cases h
    exact ⟨rfl, rfl⟩
  · split at h
    · cases h
      exact ⟨rfl, rfl⟩
    · cases h

/-- The place is the end of a paragraph, as the lines that join behind some place give it. -/
def Cursor.EndsParagraph (math : Bool) (container : Option Tag) (stop : Cursor) : Prop :=
  ∃ c, stop = paragraphEnd math container c

theorem Cursor.EndsParagraph.reach {math : Bool} {container : Option Tag} {c next stop stop' : Cursor}
    (hstop : stop.EndsParagraph math container)
    (h : Scope.reach math (.paragraph container) c next stop = .ok stop') :
    stop'.EndsParagraph math container := by
  simp only [Scope.reach] at h
  split at h
  · cases h
    exact hstop
  · cases h
    exact ⟨next, rfl⟩

namespace InlineTrace

variable {cs : List Char} {math : Bool} {scope : Scope} {enclosing : Option Tag}
  {textStart c stop : Cursor} {run : InlineRun}

theorem reaches_next (h : InlineTrace math scope enclosing textStart c stop run) : c.Reaches run.next := by
  induction h with
  | stopped => exact .refl _
  | skip hnext _ _ ih => exact hnext.reaches.trans ih
  | marked _ hnext _ _ ih => exact hnext.reaches.trans ih
  | expression _ hclose _ _ _ ih => exact (Tag.reaches_closeBrace hclose).trans ih
  | closed _ hread => exact Tag.reaches_read hread
  | selfClosing _ hread _ _ _ _ _ ih => exact (Tag.reaches_read hread).trans ih
  | element _ hread _ _ _ _ _ _ ihInner ihLater =>
    exact (Tag.reaches_read hread).trans (ihInner.trans ihLater)

/-- Content without an enclosing tag is read to its end. -/
theorem next_eq_stop (h : InlineTrace math scope enclosing textStart c stop run) (hnone : enclosing = none) :
    run.closing = none ∧ run.next = run.stop := by
  induction h with
  | stopped => exact ⟨rfl, rfl⟩
  | skip _ _ _ ih => exact ih hnone
  | marked _ _ _ _ ih => exact ih hnone
  | expression _ _ _ _ _ ih => exact ih hnone
  | closed => cases hnone
  | selfClosing _ _ _ _ _ _ _ ih => exact ih hnone
  | element _ _ _ _ _ _ _ _ _ ihLater => exact ihLater hnone

/-- A run that a closing tag ends is read up to the place behind this tag. -/
theorem closing_read {span : Span} (h : InlineTrace math scope enclosing textStart c stop run)
    (hclosing : run.closing = some span) : ∃ y opening tag, c.Reaches y ∧ enclosing = some opening ∧
      Tag.read y = .ok (tag, run.next) ∧ tag.span = span ∧ tag.closing = true ∧
      opening.closedBy tag = true := by
  induction h with
  | stopped => cases hclosing
  | skip hnext _ _ ih =>
    obtain ⟨y, opening, tag, hy, hread⟩ := ih hclosing
    exact ⟨y, opening, tag, hnext.reaches.trans hy, hread⟩
  | marked _ hnext _ _ ih =>
    obtain ⟨y, opening, tag, hy, hread⟩ := ih hclosing
    exact ⟨y, opening, tag, hnext.reaches.trans hy, hread⟩
  | expression _ hclose _ _ _ ih =>
    obtain ⟨y, opening, tag, hy, hread⟩ := ih hclosing
    exact ⟨y, opening, tag, (Tag.reaches_closeBrace hclose).trans hy, hread⟩
  | @closed opening tag _ c _ _ _ _ hread _ _ htag hpair =>
    cases hclosing
    exact ⟨c, opening, tag, .refl c, rfl, hread, rfl, htag, hpair⟩
  | selfClosing _ hread _ _ _ _ _ ih =>
    obtain ⟨y, opening, tag, hy, hlater⟩ := ih hclosing
    exact ⟨y, opening, tag, (Tag.reaches_read hread).trans hy, hlater⟩
  | element _ hread _ _ _ hinner _ _ _ ihLater =>
    obtain ⟨y, opening, tag, hy, hlater⟩ := ihLater hclosing
    exact ⟨y, opening, tag, (Tag.reaches_read hread).trans (hinner.reaches_next.trans hy), hlater⟩

/-- The nodes of a run are inline nodes. -/
theorem inlineNode (h : InlineTrace math scope enclosing textStart c stop run) (hc : c.On cs) :
    ∀ m ∈ preorderAll run.nodes, InlineNode cs m := by
  have plain : ∀ {kind : NodeKind} {s : Span}, kind.isInline = true → kind.element? = none →
      InlineNode cs (.leaf kind s) := by
    intro kind s hinline helement
    refine ⟨hinline, fun e he => ?_⟩
    rw [show (Node.leaf kind s).kind = kind from rfl, helement] at he
    cases he
  have single : ∀ {kind : NodeKind} {s : Span}, InlineNode cs (.leaf kind s) →
      ∀ m ∈ (Node.leaf kind s).preorder, InlineNode cs m := fun hleaf =>
    forall_mem_preorder.mpr ⟨hleaf, by simp [Node.leaf, Node.children, preorderAll]⟩
  have textOnly : ∀ a b : Nat, ∀ m ∈ preorderAll (textBetween a b), InlineNode cs m := by
    intro a b
    unfold textBetween
    split
    · exact forall_mem_preorderAll_cons.mpr ⟨single (plain rfl rfl), by simp [preorderAll]⟩
    · simp [preorderAll]
  induction h with
  | stopped => exact textOnly _ _
  | skip hnext _ _ ih => exact ih (hc.reaches hnext.reaches)
  | marked hkind hnext _ _ ih =>
    obtain ⟨hinline, helement⟩ := isInline_of_markedKind? hkind
    exact InlineRun.forall_mem_after (plain rfl rfl) (single (plain hinline helement))
      (ih (hc.reaches hnext.reaches))
  | expression _ hclose _ _ _ ih =>
    exact InlineRun.forall_mem_after (plain rfl rfl) (single (plain rfl rfl))
      (ih (hc.reaches (Tag.reaches_closeBrace hclose)))
  | closed => exact textOnly _ _
  | @selfClosing _ tag _ c next _ _ _ _ hread _ _ hclosing _ _ ih =>
    have hleaf : InlineNode cs (.leaf (.inlineElement tag.element) tag.span) := by
      refine ⟨rfl, fun e _ => ⟨c, next, tag, hc, ?_, hread, hclosing⟩⟩
      rw [(Tag.read_ok hread).2.1]
      rfl
    exact InlineRun.forall_mem_after (plain rfl rfl) (single hleaf)
      (ih (hc.reaches (Tag.reaches_read hread)))
  | @element _ tag _ c next _ _ closing inner _ _ hread _ _ hclosing hinner _ _ ihInner ihLater =>
    have hnext := hc.reaches (Tag.reaches_read hread)
    have hbranch : InlineNode cs (.branch (.inlineElement tag.element) (c.spanTo closing.stop) inner.nodes) :=
      ⟨rfl, fun e _ => ⟨c, next, tag, hc, rfl, hread, hclosing⟩⟩
    exact InlineRun.forall_mem_after (plain rfl rfl)
      (forall_mem_preorder.mpr ⟨hbranch, ihInner hnext⟩)
      (ihLater (hnext.reaches hinner.reaches_next))

/-- While a paragraph is read, its end stays one up to which lines join. -/
theorem endsParagraph {container : Option Tag}
    (h : InlineTrace math (.paragraph container) enclosing textStart c stop run)
    (hstop : stop.EndsParagraph math container) : run.stop.EndsParagraph math container := by
  induction h with
  | stopped => exact hstop
  | skip _ _ _ ih => exact ih hstop
  | marked _ _ _ _ ih => exact ih hstop
  | expression _ _ hreach _ _ ih => exact ih (hstop.reach hreach)
  | closed _ _ hreach => exact hstop.reach hreach
  | selfClosing _ _ hreach _ _ _ _ ih => exact ih (hstop.reach hreach)
  | element _ _ hreach _ _ _ _ _ ihInner ihLater => exact ihLater (ihInner (hstop.reach hreach))

end InlineTrace

/-- Inline content that is read to its end has a trace without an enclosing tag. -/
theorem inlineTrace_of_inlineNodes {cs : List Char} {math : Bool} {scope : Scope} {c stop stop' : Cursor}
    {nodes : List Node} (hr : Reading cs c c stop)
    (h : inlineNodes math scope c stop = .ok (nodes, stop')) :
    ∃ run : InlineRun, InlineTrace math scope none c c stop run ∧ run.nodes = nodes ∧ run.stop = stop' := by
  unfold inlineNodes at h
  obtain ⟨run, hrun, h⟩ := ok_of_bind h
  cases h
  exact ⟨run, inlineTrace_of_readInline cs math scope _ hr (by omega) hrun, rfl, rfl⟩

end Mdx

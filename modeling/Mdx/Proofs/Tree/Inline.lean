/-
Inline content that is read tiles the text: from the place where it starts to
its end, or to the tag that closes it, every character is in exactly one of its
nodes.

The end of the content may move on while it is read. It is always a place that
is reached from the cursor, and no character that can be escaped stands there
(`Cursor.Settled`), so that an escape never steps over it.
-/
import Mdx.Inline
import Mdx.Proofs.Tree.Layout

namespace Mdx

theorem isAsciiPunctuation_of_isBlank {ch : Char} (h : isBlank ch = true) :
    isAsciiPunctuation ch = false := by
  simp only [isBlank, isAsciiPunctuation, Bool.or_eq_true, Bool.and_eq_true, decide_eq_true_eq,
    beq_iff_eq, Bool.and_eq_false_iff, decide_eq_false_iff_not] at h ⊢
  omega

namespace Cursor

variable {c d : Cursor}

/-- No character that can be escaped stands at the place. -/
def Settled (c : Cursor) : Prop := ∀ ch, c.rest.head? = some ch → isAsciiPunctuation ch = false

theorem settled_of_isLineBlank (h : c.isLineBlank = true) : c.Settled := by
  intro ch hch
  obtain ⟨rest, hrest⟩ := List.head?_eq_some_iff.mp hch
  by_cases hnl : ch = '\n'
  · subst hnl
    decide
  · apply isAsciiPunctuation_of_isBlank
    rw [isLineBlank, line, hrest, List.all_eq_true] at h
    exact h ch (by simp [hnl])

/-- An escaped character stands before a settled place, not at it. -/
theorem Settled.length_pos_of_escaped {t : List Char} (h : c.Settled)
    (hesc : (t ++ c.rest).head?.any isAsciiPunctuation = true) : 0 < t.length := by
  apply List.length_pos_iff.mpr
  rintro rfl
  rw [List.nil_append, Option.any_eq_true] at hesc
  obtain ⟨d, hd, hpunct⟩ := hesc
  rw [h d hd] at hpunct
  cases hpunct

theorem reaches_paragraphLast (math : Bool) (container : Option Tag) (c : Cursor) :
    c.Reaches (paragraphLast math container c) :=
  reaches_getLast? (List.takeWhile_sublist fun line => !interrupts math container line) (.inl rfl)

/-- The lines that join a paragraph end before a line end or the end of the text. -/
theorem paragraphEnd_ok (math : Bool) (container : Option Tag) (c : Cursor) :
    c.Reaches (paragraphEnd math container c) ∧ (paragraphEnd math container c).isLineBlank = true := by
  unfold paragraphEnd
  obtain ⟨t, ht⟩ := (reaches_paragraphLast math container c).trans (path_lineEnd _).reaches
  obtain ⟨tail, h₁, h₂, -, hblank⟩ := path_trimmedTo ht
  exact ⟨h₁.reaches, isLineBlank_of_path h₂ hblank (isLineEnd_lineEnd _)⟩

end Cursor

open Cursor

/-- The end of inline content stays where it was; only that of a paragraph moves, to where nothing
but blanks is left on the line. -/
def Scope.Moves (scope : Scope) (stop stop' : Cursor) : Prop :=
  stop' = stop ∨ scope ≠ .heading ∧ stop'.isLineBlank = true

theorem Scope.Moves.trans {scope : Scope} {x y z : Cursor} (h : scope.Moves x y) (h' : scope.Moves y z) :
    scope.Moves x z := by
  rcases h' with rfl | h'
  · exact h
  · exact .inr h'

/-- A construct that was read ends at or before the end of its content, which may have moved on. -/
theorem reach_ok {math : Bool} {scope : Scope} {c next stop stop' : Cursor}
    (h : scope.reach math c next stop = .ok stop') (hnext : c.Reaches next) (hstop : c.Reaches stop)
    (hset : stop.Settled) : next.Reaches stop' ∧ stop'.Settled ∧ scope.Moves stop stop' := by
  unfold Scope.reach at h
  split at h
  · next hle =>
    simp only [Except.ok.injEq] at h
    subst h
    exact ⟨hnext.of_le hstop hle, hset, .inl rfl⟩
  · cases scope with
    | heading => cases h
    | paragraph container =>
      simp only [Except.ok.injEq] at h
      subst h
      obtain ⟨hreach, hblank⟩ := paragraphEnd_ok math container next
      exact ⟨hreach, settled_of_isLineBlank hblank, .inr ⟨by simp, hblank⟩⟩

/-! ## Marked spans -/

theorem closingRun?_le {marker : Char} {length current n : Nat} {cs : List Char}
    (h : closingRun? marker length current cs = some n) : n ≤ cs.length := by
  induction cs generalizing current n with
  | nil =>
    simp only [closingRun?] at h
    split at h
    · simp only [Option.some.injEq] at h
      omega
    · cases h
  | cons c cs ih =>
    simp only [closingRun?] at h
    split at h
    · simp only [Option.map_eq_some_iff] at h
      obtain ⟨m, hm, rfl⟩ := h
      have := ih hm
      simp only [List.length_cons]
      omega
    · split at h
      · simp only [Option.some.injEq] at h
        omega
      · simp only [Option.map_eq_some_iff] at h
        obtain ⟨m, hm, rfl⟩ := h
        have := ih hm
        simp only [List.length_cons]
        omega

theorem runLength_le (marker : Char) (cs : List Char) : runLength marker cs ≤ cs.length :=
  (List.takeWhile_prefix _).length_le

/-- A move over some characters of a path, at least one, stays on it. -/
theorem path_drop_of_le {c stop : Cursor} {t : List Char} {n : Nat} (h : c.Path t stop)
    (hpos : 0 < n) (hn : n ≤ t.length) : ∃ u, u ≠ [] ∧ c.Path u (c.drop n) ∧ (c.drop n).Reaches stop := by
  have hsplit : t = t.take n ++ t.drop n := (List.take_append_drop n t).symm
  rw [hsplit] at h
  have hlen : (t.take n).length = n := by rw [List.length_take]; omega
  obtain ⟨h₁, h₂⟩ := h.at_length
  rw [hlen] at h₁ h₂
  refine ⟨t.take n, ?_, h₁, h₂.reaches⟩
  intro hnil
  rw [hnil] at hlen
  simp at hlen
  omega

/-- A marked span, or the run of markers that opens none, is not empty and ends in the content. -/
theorem markedSpan_ok {c stop : Cursor} {ch : Char} {t : List Char} (h : c.Path (ch :: t) stop) :
    ∃ next u, (markedSpan ch c stop = .ok next ∨ markedSpan ch c stop = .error next) ∧ u ≠ [] ∧
      c.Path u next ∧ next.Reaches stop := by
  unfold markedSpan
  rw [h.upTo]
  have hpos : 0 < runLength ch (ch :: t) := by simp [runLength]
  have hrun := runLength_le ch (ch :: t)
  dsimp only
  split
  · next length hlength =>
    have hlen := closingRun?_le hlength
    rw [List.length_drop] at hlen
    obtain ⟨u, hu⟩ := path_drop_of_le h (n := runLength ch (ch :: t) + length) (by omega) (by omega)
    exact ⟨_, u, .inl rfl, hu⟩
  · obtain ⟨u, hu⟩ := path_drop_of_le h hpos hrun
    exact ⟨_, u, .inr rfl, hu⟩

theorem markedKind?_shape {math : Bool} {ch : Char} {kind : NodeKind} (h : markedKind? math ch = some kind)
    (a b : Cursor) : kind ≠ .text ∧ Shape a b kind [] := by
  unfold markedKind? at h
  split at h
  · cases h
    exact ⟨by simp, .inlineCode⟩
  · split at h
    · cases h
      exact ⟨by simp, .inlineMath⟩
    · cases h

/-! ## Runs -/

/-- The text that has no node yet, before nodes that do not start with a text. -/
theorem tiled_textBetween {a b d : Cursor} {nodes : List Node} (hab : a.Reaches b) (h : Tiled b nodes d)
    (hhead : ∀ m, nodes.head? = some m → m.kind ≠ .text) :
    Tiled a (textBetween a.offset b.offset ++ nodes) d := by
  unfold textBetween
  obtain ⟨t, ht⟩ := hab
  split
  · next hlt => exact .cons ht (ht.ne_nil hlt) rfl (fun _ => hhead) h
  · next hle =>
    have heq : a = b := Reaches.eq_of_offset_eq (.refl a) ⟨t, ht⟩ (by have := ht.le; omega)
    rw [List.nil_append, heq]
    exact h

theorem placed_textBetween {cs : List Char} {a b : Cursor} (ha : a.On cs) (hab : a.Reaches b) :
    ∀ m ∈ preorderAll (textBetween a.offset b.offset), Placed cs m := by
  unfold textBetween
  split
  · rw [forall_mem_preorderAll_cons]
    exact ⟨placed_leaf ha hab .text, by simp [preorderAll]⟩
  · simp [preorderAll]

/-- Inline content from `start` on that was read. It was read to its end, or up to the tag that
closes the enclosing one. -/
inductive InlineRun.Reads (start : Cursor) (enclosing : Option Tag) : InlineRun → Prop
  | stopped {nodes : List Node} {stop : Cursor} :
    Tiled start nodes stop → Reads start enclosing ⟨nodes, none, stop, stop⟩
  | closed {nodes : List Node} {c next stop : Cursor} {opening tag : Tag} :
    Tiled start nodes c → Tag.read c = .ok (tag, next) → tag.closing = true →
    enclosing = some opening → opening.closedBy tag = true → next.Reaches stop → stop.Settled →
    Reads start enclosing ⟨nodes, some tag.span, next, stop⟩

/-- A text without a node yet and a node that is no text, before content that was read. -/
theorem InlineRun.Reads.after {start c next : Cursor} {enclosing : Option Tag} {run : InlineRun}
    {n : Node} {t : List Char} (hstart : start.Reaches c) (ht : c.Path t next) (hne : t ≠ [])
    (hspan : n.span = some (c.spanTo next.offset)) (hkind : n.kind ≠ .text)
    (h : run.Reads next enclosing) :
    (run.after (textBetween start.offset c.offset ++ [n])).Reads start enclosing := by
  have tiled : ∀ {nodes d}, Tiled next nodes d →
      Tiled start ((textBetween start.offset c.offset ++ [n]) ++ nodes) d := by
    intro nodes d hnodes
    rw [List.append_assoc]
    refine tiled_textBetween hstart (Tiled.cons_other ht hne hspan hkind hnodes) ?_
    intro m hm
    simp only [List.cons_append, List.nil_append, List.head?_cons, Option.some.injEq] at hm
    exact hm ▸ hkind
  cases h with
  | stopped hnodes => exact .stopped (tiled hnodes)
  | closed hnodes hread hclosing henc hclosed hnext hset =>
    exact .closed (tiled hnodes) hread hclosing henc hclosed hnext hset

/-- A run that was read from `start` on: what it reads, its nodes, and its end, which only a
paragraph moves. -/
structure InlineRun.Sound (cs : List Char) (scope : Scope) (enclosing : Option Tag) (start stop : Cursor)
    (run : InlineRun) : Prop where
  reads : run.Reads start enclosing
  placed : ∀ m ∈ preorderAll run.nodes, Placed cs m
  moves : scope.Moves stop run.stop

/-- The reader stands at `c`, and what it has passed over since `textStart` has no node yet. -/
structure Reading (cs : List Char) (textStart c stop : Cursor) : Prop where
  on : textStart.On cs
  text : textStart.Reaches c
  ahead : c.Reaches stop
  settled : c.offset < stop.offset → stop.Settled

/-- With enough fuel every run that is read is sound. -/
def ReadsInline (cs : List Char) (math : Bool) (scope : Scope) (fuel : Nat) : Prop :=
  ∀ {enclosing : Option Tag} {textStart c stop : Cursor} {run : InlineRun}, Reading cs textStart c stop →
    c.rest.length < fuel → readInline math scope fuel enclosing textStart c stop = .ok run →
    run.Sound cs scope enclosing textStart stop

section Step

variable {cs : List Char} {math : Bool} {scope : Scope} {fuel : Nat} {enclosing : Option Tag}
  {textStart c stop : Cursor} {run : InlineRun}

/-- At the end of the content, or before the tag that closes it, the text read so far is all. -/
theorem Reading.tiled_text (hr : Reading cs textStart c stop) :
    Tiled textStart (textBetween textStart.offset c.offset) c := by
  have h := tiled_textBetween hr.text (.nil c) (by simp)
  rwa [List.append_nil] at h

theorem Reading.on_cursor (hr : Reading cs textStart c stop) : c.On cs := hr.on.reaches hr.text

/-- What is passed over joins the text that has no node yet. -/
theorem ReadsInline.skip (hreads : ReadsInline cs math scope fuel) (hr : Reading cs textStart c stop)
    (hfuel : c.rest.length < fuel + 1) {next : Cursor} {t : List Char} (ht : c.Path t next) (hne : t ≠ [])
    (hstop : next.Reaches stop) (hset : stop.Settled)
    (h : readInline math scope fuel enclosing textStart next stop = .ok run) :
    run.Sound cs scope enclosing textStart stop := by
  have hlt := ht.length_lt hne
  exact hreads ⟨hr.on, hr.text.trans ht.reaches, hstop, fun _ => hset⟩ (by omega) h

/-- Behind a node that is no text the reading starts anew. -/
theorem ReadsInline.node (hreads : ReadsInline cs math scope fuel) (hr : Reading cs textStart c stop)
    (hfuel : c.rest.length < fuel + 1) {next stop' : Cursor} {n : Node} {t : List Char}
    (ht : c.Path t next) (hne : t ≠ []) (hspan : n.span = some (c.spanTo next.offset))
    (hkind : n.kind ≠ .text) (hplaced : ∀ m ∈ n.preorder, Placed cs m) (hstop : next.Reaches stop')
    (hset : stop'.Settled) (hmoves : scope.Moves stop stop')
    (h : (do
      let run ← readInline math scope fuel enclosing next next stop'
      return run.after (textBetween textStart.offset c.offset ++ [n])) = .ok run) :
    run.Sound cs scope enclosing textStart stop := by
  obtain ⟨later, hlater, h⟩ := ok_of_bind h
  simp only [pure, Except.pure, Except.ok.injEq] at h
  subst h
  have hnext : next.On cs := hr.on_cursor.reaches ht.reaches
  have hlt := ht.length_lt hne
  have hsound := hreads ⟨hnext, .refl _, hstop, fun _ => hset⟩ (by omega) hlater
  refine ⟨hsound.reads.after hr.text ht hne hspan hkind, ?_, hmoves.trans hsound.moves⟩
  have hnodes : (later.after (textBetween textStart.offset c.offset ++ [n])).nodes =
      (textBetween textStart.offset c.offset ++ [n]) ++ later.nodes := rfl
  rw [hnodes, forall_mem_preorderAll_append, forall_mem_preorderAll_append, forall_mem_preorderAll_cons]
  exact ⟨⟨placed_textBetween hr.on hr.text, hplaced, by simp [preorderAll]⟩, hsound.placed⟩

/-- An expression is one node, and may move the end of the content. -/
theorem ReadsInline.expression (hreads : ReadsInline cs math scope fuel)
    (hr : Reading cs textStart c stop) (hfuel : c.rest.length < fuel + 1) (hset : stop.Settled)
    {rest : List Char} (hopen : c.rest = '\x7b' :: rest) {close : Script.ClosingBrace} {stop' : Cursor}
    (hclose : Script.closingBrace c = .ok close)
    (hreach : scope.reach math c (close.place.drop 1) stop = .ok stop')
    (h : (do
      let run ← readInline math scope fuel enclosing (close.place.drop 1) (close.place.drop 1) stop'
      return run.after (textBetween textStart.offset c.offset ++
        [Node.leaf (.inlineExpression ⟨(c.drop 1).spanTo close.place.offset, close.isEmpty⟩)
          (c.spanTo (close.place.drop 1).offset)])) = .ok run) :
    run.Sound cs scope enclosing textStart stop := by
  obtain ⟨body, hbody, hend, hwhole⟩ := Script.closingBrace_body hclose hopen
  obtain ⟨hstop, hset', hmoves⟩ := reach_ok hreach hwhole.reaches hr.ahead hset
  have hshape : Shape c (close.place.drop 1)
      (.inlineExpression ⟨(c.drop 1).spanTo close.place.offset, close.isEmpty⟩) [] :=
    .inlineExpression (path_cons hopen) hbody.reaches hend
  have hplaced := placed_leaf hr.on_cursor hwhole.reaches hshape
  exact hreads.node hr hfuel hwhole (by simp) rfl (by simp [Node.leaf, Node.kind]) hplaced hstop hset'
    hmoves h

/-- An element with content is the two tags and what is read between them. -/
theorem ReadsInline.element (hreads : ReadsInline cs math scope fuel) (hr : Reading cs textStart c stop)
    (hfuel : c.rest.length < fuel + 1) {tag : Tag} {next stop' : Cursor} {t : List Char}
    (hread : Tag.read c = .ok (tag, next)) (ht : c.Path t next) (hne : t ≠ [])
    (hstop : next.Reaches stop') (hset : stop'.Settled) (hmoves : scope.Moves stop stop')
    {inner : InlineRun} (hinner : readInline math scope fuel (some tag) next next stop' = .ok inner)
    {closing : Span} (hclosing : inner.closing = some closing)
    (h : (do
      let run ← readInline math scope fuel enclosing inner.next inner.next inner.stop
      return run.after (textBetween textStart.offset c.offset ++
        [Node.branch (.inlineElement tag.element) (c.spanTo closing.stop) inner.nodes])) = .ok run) :
    run.Sound cs scope enclosing textStart stop := by
  have hnext : next.On cs := hr.on_cursor.reaches ht.reaches
  have hlt := ht.length_lt hne
  obtain ⟨hin, hplacedIn, hmovesIn⟩ :=
    hreads ⟨hnext, .refl _, hstop, fun _ => hset⟩ (by omega) hinner
  cases hin with
  | stopped => cases hclosing
  | closed htiled hread' hclose henc hclosed hnext' hset' =>
    cases henc
    simp only [Option.some.injEq] at hclosing
    subst hclosing
    rw [(Tag.read_ok hread').2.1] at h
    obtain ⟨v, hv⟩ := htiled.laid.reaches.trans (Tag.reaches_read hread')
    have hwhole := ht.trans hv
    have hshape := Shape.inlineElement hread htiled hread' hclose hclosed
    have hplaced := placed_branch hr.on_cursor hwhole.reaches hshape hplacedIn
    exact hreads.node hr hfuel hwhole (by simp [hne]) rfl (by simp [Node.branch, Node.kind]) hplaced
      hnext' hset' (hmoves.trans hmovesIn) h

/-- A tag closes the content, or is a node by itself, or opens one. -/
theorem ReadsInline.tag (hreads : ReadsInline cs math scope fuel) (hr : Reading cs textStart c stop)
    (hfuel : c.rest.length < fuel + 1) (hset : stop.Settled) (hrest : c.rest ≠ []) {tag : Tag}
    {next stop' : Cursor} (hread : Tag.read c = .ok (tag, next))
    (hreach : scope.reach math c next stop = .ok stop')
    (h : (if tag.closing then
        match enclosing with
        | none => throw ⟨.unexpectedClosingTag tag.display none, tag.span⟩
        | some opening =>
          if opening.closedBy tag then
            return ⟨textBetween textStart.offset c.offset, some tag.span, next, stop'⟩
          else throw ⟨.unexpectedClosingTag tag.display (some opening.display), tag.span⟩
      else if tag.selfClosing then do
        let run ← readInline math scope fuel enclosing next next stop'
        return run.after (textBetween textStart.offset c.offset ++
          [.leaf (.inlineElement tag.element) tag.span])
      else do
        let inner ← readInline math scope fuel (some tag) next next stop'
        match inner.closing with
        | none => throw ⟨.unclosedTag tag.display scope.enclosure, c.byteSpan⟩
        | some closing =>
          let run ← readInline math scope fuel enclosing inner.next inner.next inner.stop
          let node := Node.branch (.inlineElement tag.element) (c.spanTo closing.stop) inner.nodes
          return run.after (textBetween textStart.offset c.offset ++ [node]) :
      Except ParseError InlineRun) = .ok run) :
    run.Sound cs scope enclosing textStart stop := by
  obtain ⟨t, ht, hp⟩ := Tag.path_read hread hrest
  obtain ⟨hstop, hset', hmoves⟩ := reach_ok hreach hp.reaches hr.ahead hset
  split at h
  · next hclosing =>
    cases enclosing with
    | none => cases h
    | some opening =>
      dsimp only at h
      split at h
      · next hclosed =>
        simp only [pure, Except.pure, Except.ok.injEq] at h
        subst h
        exact ⟨.closed hr.tiled_text hread hclosing rfl hclosed hstop hset',
          placed_textBetween hr.on hr.text, hmoves⟩
      · cases h
  split at h
  · next hself =>
    rw [(Tag.read_ok hread).2.1] at h
    have hplaced := placed_leaf hr.on_cursor hp.reaches (.inlineTag hread hself)
    exact hreads.node hr hfuel hp ht rfl (by simp [Node.leaf, Node.kind]) hplaced hstop hset' hmoves h
  · obtain ⟨inner, hinner, h⟩ := ok_of_bind h
    split at h
    · cases h
    · next closing hclosing =>
      exact hreads.element hr hfuel hread hp ht hstop hset' hmoves hinner hclosing h

end Step

/-- Inline content that was read tiles the text, and all its nodes are placed. -/
theorem readInline_ok (cs : List Char) (math : Bool) (scope : Scope) (fuel : Nat) :
    ReadsInline cs math scope fuel := by
  induction fuel with
  | zero => intro _ _ _ _ _ _ hfuel; omega
  | succ fuel ih =>
    intro enclosing textStart c stop run hr hfuel h
    simp only [readInline, inlineRound] at h
    split at h
    · next hle =>
      have heq : c = stop := Reaches.eq_of_offset_eq (.refl c) hr.ahead (Nat.le_antisymm hr.ahead.le hle)
      subst heq
      simp only [Nat.min_self, Except.ok.injEq] at h
      subst h
      exact ⟨.stopped hr.tiled_text, placed_textBetween hr.on hr.text, .inl rfl⟩
    next hlt =>
    have hset := hr.settled (by omega)
    obtain ⟨u, hu⟩ := hr.ahead
    obtain ⟨ch, u, rfl⟩ := List.exists_cons_of_ne_nil (hu.ne_nil (by omega))
    have hrest : c.rest = ch :: (u ++ stop.rest) := hu.rest
    have skip : ∀ {n : Nat}, 0 < n → n ≤ u.length + 1 →
        readInline math scope fuel enclosing textStart (c.drop n) stop = .ok run →
        run.Sound cs scope enclosing textStart stop := by
      intro n hpos hn h
      obtain ⟨t, ht, hp, hstop⟩ := path_drop_of_le hu hpos (by simpa using hn)
      exact ih.skip hr hfuel hp ht hstop hset h
    rw [hrest] at h
    dsimp only at h
    split at h
    · next kind hkind =>
      obtain ⟨next, t, hspan, ht, hp, hstop⟩ := markedSpan_ok hu
      obtain ⟨hother, hshape⟩ := markedKind?_shape hkind c next
      rcases hspan with hspan | hspan
      · rw [hspan] at h
        have hplaced := placed_leaf hr.on_cursor hp.reaches hshape
        exact ih.node hr hfuel hp ht (n := .leaf kind (c.spanTo next.offset)) rfl hother hplaced hstop
          hset (.inl rfl) h
      · rw [hspan] at h
        exact ih.skip hr hfuel hp ht hstop hset h
    split at h
    · by_cases hesc : ((u ++ stop.rest).head?.any isAsciiPunctuation) = true
      · simp only [hesc, if_true] at h
        have hpos := hset.length_pos_of_escaped hesc
        exact skip (by omega) (by omega) h
      · simp only [hesc, Bool.false_eq_true, if_false] at h
        exact skip (by omega) (by omega) h
    split at h
    · next hbrace =>
      have hopen : c.rest = '\x7b' :: (u ++ stop.rest) := by rw [hrest, beq_iff_eq.mp hbrace]
      obtain ⟨close, hclose, h⟩ := ok_of_bind h
      obtain ⟨stop', hreach, h⟩ := ok_of_bind h
      exact ih.expression hr hfuel hset hopen hclose hreach h
    split at h
    · obtain ⟨⟨tag, next⟩, hread, h⟩ := ok_of_bind h
      obtain ⟨stop', hreach, h⟩ := ok_of_bind h
      exact ih.tag hr hfuel hset (by simp [hrest]) hread hreach h
    · exact skip (by omega) (by omega) h

/-- The nodes of inline content tile it up to its end. -/
theorem inlineNodes_ok {cs : List Char} {math : Bool} {scope : Scope} {c stop stop' : Cursor}
    {nodes : List Node} (h : inlineNodes math scope c stop = .ok (nodes, stop')) (hc : c.On cs)
    (hstop : c.Reaches stop) (hset : c.offset < stop.offset → stop.Settled) :
    Tiled c nodes stop' ∧ (∀ m ∈ preorderAll nodes, Placed cs m) ∧ scope.Moves stop stop' := by
  unfold inlineNodes at h
  obtain ⟨run, hrun, h⟩ := ok_of_bind h
  simp only [pure, Except.pure, Except.ok.injEq, Prod.mk.injEq] at h
  obtain ⟨rfl, rfl⟩ := h
  obtain ⟨hreads, hplaced, hmoves⟩ :=
    readInline_ok cs math scope _ ⟨hc, .refl c, hstop, hset⟩ (by omega) hrun
  cases hreads with
  | stopped htiled => exact ⟨htiled, hplaced, hmoves⟩
  | closed _ _ _ henc => cases henc

end Mdx

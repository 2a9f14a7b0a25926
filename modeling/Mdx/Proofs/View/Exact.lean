/-
The prose view is exact. Told from its text and its mapping alone: the bytes it
has from its source are those that are not hidden, in order, but for some of the
indent in the contents of elements; all else in it are the placeholders, one for
each line and hidden span of which the line shows something, and the line feeds
that are hidden.

Both follow the lines. No byte of a line is lost that is neither hidden nor
indent (`WritesLine.accounted`): indent is dropped only as long as nothing but
whitespace was passed on the line (`Leads`). And what a line writes of its own is
told span by span (`WritesLine.literalText_eq`).
-/
import Mathlib.Data.List.Sort
import Mdx.Proofs.Generated.Parts
import Mdx.Proofs.Mapping.Search
import Mdx.Proofs.View.Faithful

namespace Mdx

open Cursor

/-- The bytes that two spans have in common. -/
def Span.common (s t : Span) : Span := ⟨max s.start t.start, min s.stop t.stop⟩

namespace Prose

/-- The place is on a line that starts in the content, and only whitespace is before it there. -/
structure Leads (source : List Char) (content : RangeSet) (line c : Cursor) : Prop where
  mem : line ∈ (ofText source).lines
  inContent : content.contains line.offset = true
  onLine : c.offset ≤ line.lineEnd.offset
  blank : ∃ t, line.Path t c ∧ ∀ ch ∈ t, isBlank ch = true

/-- At the offset stands a space or tab that has only whitespace before it on a line that starts in
the content. -/
def InIndent (source : List Char) (content : RangeSet) (o : Nat) : Prop :=
  ∃ line c : Cursor, Leads source content line c ∧ c.offset = o ∧
    ∃ ch rest, c.rest = ch :: rest ∧ isIndent ch = true

/-- A hidden span leaves a placeholder in a part of the source where it shows. -/
def placeholderIn (source : List Char) (part s : Span) : List Char :=
  if (slice source (s.common part)).all isBlank then [] else placeholder.toList

/-- What the prose view has of its own on a line: the placeholders of the hidden spans that show there,
and the line feed behind it if it is hidden. -/
def ownOnLine (source : List Char) (hidden : List Span) (line : Cursor) : List Char :=
  hidden.flatMap (placeholderIn source (line.spanTo line.lineEnd.offset)) ++
    if hidden.any (·.contains line.lineEnd.offset) then ['\n'] else []

/-- The text has from its source, in order, the bytes that are not hidden, but for some indent in the
content. All that it has of its own are placeholders and hidden line feeds. -/
structure Exact (source : List Char) (nonProse content : RangeSet) (view : GeneratedText) : Prop where
  faithful : view.mapping.Faithful source view.text
  sourceBytes_eq : ∃ dropped : Nat → Bool, (∀ o, dropped o = true → InIndent source content o) ∧
    view.mapping.sourceBytes =
      (List.range (byteLength source)).filter fun o => !nonProse.contains o && !dropped o
  unmapped : ∀ o, nonProse.contains o = true → view.mapping.toGenerated o = none
  ownText_eq : view.ownText = (ofText source).lines.flatMap (ownOnLine source nonProse.merged)

variable {source : List Char} {content : RangeSet} {hidden : List Span} {c d e line : Cursor}

/-! ## The hidden spans of a line -/

/-- The hidden spans of a line are found without a look at each: halving passes over those that stop
before the line, and the first that starts behind it is the end. -/
theorem onLine_eq_search (h : RangeSet.Separated hidden) (lo hi : Nat) :
    (hidden.filter fun s => lo < s.stop && s.start < hi) =
      (hidden.drop (partitionPoint (fun s : Span => s.stop ≤ lo) hidden 0 hidden.length)).takeWhile
        (·.start < hi) := by
  have hordered : hidden.Pairwise fun s t => s.start < t.start ∧ s.stop < t.stop := by
    refine h.apart.imp_of_mem fun hs ht hapart => ?_
    have := h.nonempty _ hs
    have := h.nonempty _ ht
    omega
  have hstops : hidden.Pairwise fun s t => decide (t.stop ≤ lo) = true → decide (s.stop ≤ lo) = true := by
    refine hordered.imp fun hst => ?_
    simp only [decide_eq_true_eq]
    omega
  have hstarts : hidden.Pairwise fun s t => decide (t.start < hi) = true → decide (s.start < hi) = true := by
    refine hordered.imp fun hst => ?_
    simp only [decide_eq_true_eq]
    omega
  rw [takeWhile_eq_filter (hstarts.sublist (List.drop_sublist _ _)), drop_partitionPoint hstops,
    List.filter_filter]
  refine List.filter_congr fun s _ => ?_
  rw [Bool.and_comm, ← decide_not]
  simp only [Nat.not_le]

/-! ## No byte is lost -/

theorem Leads.trans (h : Leads source content line c) {t : List Char} (ht : c.Path t d)
    (hblank : ∀ ch ∈ t, isBlank ch = true) (hd : d.offset ≤ line.lineEnd.offset) :
    Leads source content line d := by
  obtain ⟨before, hbefore, hlead⟩ := h.blank
  exact ⟨h.mem, h.inContent, hd, _, hbefore.trans ht, List.forall_mem_append.mpr ⟨hlead, hblank⟩⟩

/-- Each byte of the indent at a place that only whitespace leads to is a space or tab that only
whitespace leads to. -/
theorem Leads.inIndent (h : Leads source content line c) {front : List Char} (hfront : c.Path front d)
    (hindent : ∀ ch ∈ front, isIndent ch = true) (hd : d.offset ≤ line.lineEnd.offset) {o : Nat}
    (hlo : c.offset ≤ o) (hhi : o < d.offset) : InIndent source content o := by
  induction front generalizing c with
  | nil =>
    have := hfront.offset
    rw [byteLength_nil] at this
    omega
  | cons ch front ih =>
    rw [List.forall_mem_cons] at hindent
    by_cases ho : o = c.offset
    · exact ⟨line, c, h, ho.symm, ch, _, hfront.rest, hindent.1⟩
    · have hpath : c.Path ([ch] ++ front) d := hfront
      obtain ⟨hfirst, hlater⟩ := hpath.at_length
      have hoffset := hfirst.offset
      have hle := hlater.le
      rw [byteLength_cons, utf8Size_of_isIndent hindent.1, byteLength_nil] at hoffset
      have hblank : ∀ x ∈ [ch], isBlank x = true := by simpa using isBlank_of_isIndent hindent.1
      exact ih (h.trans hfirst hblank (by omega)) hlater hindent.2 (by omega)

/-- Each byte between the two places is hidden, copied, or of an indent in the content. -/
def Accounted (source : List Char) (hidden : List Span) (content : RangeSet) (c d : Cursor)
    (copied : List Span) : Prop :=
  ∀ o, c.offset ≤ o → o < d.offset → (∃ s ∈ hidden, s.contains o = true) ∨
    (∃ s ∈ copied, s.contains o = true) ∨ InIndent source content o

theorem Accounted.append {copied more : List Span} (h : Accounted source hidden content c d copied)
    (h' : Accounted source hidden content d e more) :
    Accounted source hidden content c e (copied ++ more) := by
  intro o hlo hhi
  simp only [List.mem_append, or_and_right, exists_or]
  by_cases ho : o < d.offset
  · rcases h o hlo ho with h | h | h
    · exact .inl h
    · exact .inr (.inl (.inl h))
    · exact .inr (.inr h)
  · rcases h' o (by omega) hhi with h | h | h
    · exact .inl h
    · exact .inr (.inl (.inr h))
    · exact .inr (.inr h)

theorem accounted_hidden {s : Span} (hs : s ∈ hidden) (hlo : s.start ≤ c.offset) (hhi : d.offset ≤ s.stop) :
    Accounted source hidden content c d [] :=
  fun _ hc hd => .inl ⟨s, hs, Span.contains_iff.mpr ⟨by omega, by omega⟩⟩

theorem accounted_copied : Accounted source hidden content c d [c.spanTo d.offset] :=
  fun _ hc hd => .inr (.inl ⟨_, List.mem_singleton_self _, Span.contains_iff.mpr ⟨hc, hd⟩⟩)

section Line

variable {indent : Nat} {run : List Piece × Nat} {spans : List Span} {ps : List Piece}

theorem accounted_indent (hlead : 0 < indent → Leads source content line c) {front : List Char}
    (hfront : c.Path front d) (hindent : ∀ ch ∈ front, isIndent ch = true) (hle : front.length ≤ indent)
    (hd : d.offset ≤ line.lineEnd.offset) : Accounted source hidden content c d [] := by
  intro o hlo hhi
  have hpos := List.length_pos_iff.mpr (hfront.ne_nil (by omega))
  exact .inr (.inr ((hlead (by omega)).inIndent hfront hindent hd hlo hhi))

/-- A run drops indent only where whitespace leads to it, and leaves some to be dropped only if
whitespace leads on behind it. -/
theorem WritesRun.accounted (h : WritesRun c d indent run) (hidden : List Span)
    (hd : d.offset ≤ line.lineEnd.offset) (hlead : 0 < indent → Leads source content line c) :
    Accounted source hidden content c d (copiedSpans run.1) ∧
      (0 < run.2 → Leads source content line d) := by
  cases h with
  | copied hfront hindent hle hm hlt =>
    refine ⟨(accounted_indent hlead hfront hindent hle (by omega)).append accounted_copied, fun hpos => ?_⟩
    exact absurd hpos (Nat.lt_irrefl 0)
  | dropped hfront hindent hle =>
    refine ⟨accounted_indent hlead hfront hindent hle hd, fun hpos => ?_⟩
    have hblank := fun ch hch => isBlank_of_isIndent (hindent ch hch)
    exact (hlead (Nat.lt_of_lt_of_le hpos (Nat.sub_le _ _))).trans hfront hblank hd

theorem PartOf.le {s : Span} {a b : Cursor} {u : List Char} (h : PartOf s c e a u b) : b.offset ≤ e.offset := by
  rw [h.stop]
  exact Nat.min_le_right _ _

theorem PartOf.accounted {s : Span} {a b : Cursor} {u : List Char} (h : PartOf s c e a u b)
    (hs : s ∈ hidden) : Accounted source hidden content a b [] := by
  have hstart := h.start
  have hstop := h.stop
  exact accounted_hidden hs (by omega) (by omega)

theorem WritesLine.accounted (h : WritesLine e c indent spans ps) (he : e.offset ≤ line.lineEnd.offset)
    (hmem : ∀ s ∈ spans, s ∈ hidden) (hlead : 0 < indent → Leads source content line c) :
    Accounted source hidden content c e (copiedSpans ps) := by
  induction h with
  | rest hrun => exact (hrun.accounted hidden he hlead).1
  | blank hrun hpart hblank _ ih =>
    rw [List.forall_mem_cons] at hmem
    have hb := Nat.le_trans hpart.le he
    obtain ⟨hbefore, hleft⟩ := hrun.accounted hidden (Nat.le_trans hpart.path.le hb) hlead
    have hafter := ih hmem.2 fun hpos => (hleft hpos).trans hpart.path (List.all_eq_true.mp hblank) hb
    rw [copiedSpans_append]
    exact hbefore.append ((hpart.accounted hmem.1).append hafter)
  | shows hrun hpart _ _ ih =>
    rw [List.forall_mem_cons] at hmem
    have hb := Nat.le_trans hpart.le he
    have hbefore := (hrun.accounted hidden (Nat.le_trans hpart.path.le hb) hlead).1
    have hafter := ih hmem.2 fun hpos => absurd hpos (Nat.lt_irrefl 0)
    rw [copiedSpans_append, copiedSpans_literal]
    exact hbefore.append ((hpart.accounted hmem.1).append hafter)

end Line

/-! ## The indent of a line -/

/-- Only a line that starts in the content drops indent. -/
theorem contains_of_lineIndent (hsorted : content.Sorted) {o : Nat}
    (h : 0 < lineIndent (content.ranges.map fun s => (s, baseIndent source s)) o) :
    content.contains o = true := by
  rw [lineIndent] at h
  cases hlast : ((content.ranges.map fun s => (s, baseIndent source s)).filter
      (·.1.contains o)).getLast? with
  | none =>
    rw [hlast] at h
    exact absurd h (Nat.lt_irrefl 0)
  | some base =>
    obtain ⟨hbase, ho⟩ := List.mem_filter.mp (List.mem_of_getLast? hlast)
    obtain ⟨s, hs, rfl⟩ := List.mem_map.mp hbase
    exact (RangeSet.contains_iff hsorted).mpr ⟨s, hs, ho⟩

theorem accounted_lineOf (hhidden : ∀ h ∈ hidden, h.InText source)
    (hapart : hidden.Pairwise fun s t => s.stop < t.start) (hsorted : content.Sorted) (hc : c.On source)
    (hmem : c.rest ≠ [] → c ∈ (ofText source).lines) :
    Accounted source hidden content c c.lineEnd
      (copiedSpans (lineOf hidden (content.ranges.map fun s => (s, baseIndent source s)) c)) := by
  by_cases hne : c.rest = []
  · rw [lineEnd_of_isLineEnd (isLineEnd_iff.mpr (.inl hne))]
    intro o hlo hhi
    omega
  · refine (writesLine_lineOf hhidden hapart _ hc).accounted (Nat.le_refl _)
      (fun s hs => (List.mem_filter.mp hs).1) fun hpos => ?_
    exact ⟨hmem hne, contains_of_lineIndent hsorted hpos, (path_lineEnd c).le, [], .refl c, by simp⟩

theorem accounted_feedOf (hfeed : c.lineEnd.Path ['\n'] c.nextLine) :
    Accounted source hidden content c.lineEnd c.nextLine (copiedSpans [feedOf hidden c]) := by
  rw [feedOf]
  split
  · next hany =>
    intro o hlo hhi
    have hd : c.nextLine.offset = c.lineEnd.offset + 1 := hfeed.offset
    have heq : o = c.lineEnd.offset := by omega
    exact .inl (heq ▸ List.any_eq_true.mp hany)
  · exact accounted_copied

theorem rest_ne_nil_of_feed (h : c.lineEnd.Path ['\n'] d) : c.rest ≠ [] := by
  intro hnil
  rw [lineEnd_of_isLineEnd (isLineEnd_iff.mpr (.inl hnil))] at h
  exact absurd (hnil.symm.trans h.rest) (by simp)

theorem accounted_linesPieces (hhidden : ∀ h ∈ hidden, h.InText source)
    (hapart : hidden.Pairwise fun s t => s.stop < t.start) (hsorted : content.Sorted) (c : Cursor)
    (hc : c.On source) (hmem : ∀ l ∈ c.lines, l ∈ (ofText source).lines) :
    Accounted source hidden content c (ofEnd source) (copiedSpans (linesPieces hidden
      (content.ranges.map fun s => (s, baseIndent source s)) c.offset (splitLines c.rest))) := by
  revert hc hmem
  refine linesPieces_induction (motive := fun c ps => c.On source →
    (∀ l ∈ c.lines, l ∈ (ofText source).lines) →
    Accounted source hidden content c (ofEnd source) (copiedSpans ps)) ?_ ?_ c
  · intro c hlast hc hmem
    have hline := accounted_lineOf hhidden hapart hsorted hc fun hne =>
      hmem c (lines_of_ne_nil hne ▸ List.mem_cons_self)
    rwa [lineEnd_eq_ofEnd hc hlast] at hline
  · intro c ps hfeed ih hc hmem
    have hend := path_lineEnd c
    rw [lines_of_ne_nil (rest_ne_nil_of_feed hfeed), List.forall_mem_cons] at hmem
    have hnext := ih (hc.reaches (hend.trans hfeed).reaches) hmem.2
    rw [copiedSpans_append, copiedSpans_cons]
    exact (accounted_lineOf hhidden hapart hsorted hc fun _ => hmem.1).append
      ((accounted_feedOf hfeed).append hnext)

/-! ## What the view has of its own -/

section Own

variable {s part : Span} {spans : List Span} {indent lo : Nat} {run : List Piece × Nat} {ps : List Piece}

theorem placeholderIn_of_empty (h : (s.common part).length = 0) : placeholderIn source part s = [] := by
  rw [placeholderIn, slice, h, takeBytes_zero, List.all_nil, if_pos rfl]

/-- The spans that do not reach into a line leave no placeholder there. -/
theorem flatMap_onLine (hidden : List Span) (lo hi : Nat) :
    (hidden.filter fun s => lo < s.stop && s.start < hi).flatMap (placeholderIn source ⟨lo, hi⟩) =
      hidden.flatMap (placeholderIn source ⟨lo, hi⟩) := by
  induction hidden with
  | nil => rfl
  | cons s hidden ih =>
    by_cases hs : (decide (lo < s.stop) && decide (s.start < hi)) = true
    · rw [List.filter_cons, if_pos hs, List.flatMap_cons, ih, List.flatMap_cons]
    · have hempty : (s.common ⟨lo, hi⟩).length = 0 := by
        simp only [Bool.and_eq_true, decide_eq_true_eq] at hs
        simp only [Span.common, Span.length]
        omega
      rw [List.filter_cons, if_neg hs, List.flatMap_cons, placeholderIn_of_empty hempty, List.nil_append, ih]

theorem WritesRun.literalText_eq (h : WritesRun c d indent run) : literalText run.1 = [] := by
  cases h with
  | copied => rfl
  | dropped => rfl

theorem PartOf.placeholderIn_eq {a b : Cursor} {u : List Char} (h : PartOf s c e a u b) (ha : a.On source)
    (hstart : max c.offset s.start = max lo s.start) :
    placeholderIn source ⟨lo, e.offset⟩ s = if u.all isBlank then [] else placeholder.toList := by
  have hcommon : s.common ⟨lo, e.offset⟩ = a.spanTo b.offset := by
    rw [Span.common, spanTo, h.start, h.stop, hstart, Nat.max_comm]
  rw [placeholderIn, hcommon, ha.slice h.path]

/-- Behind a span, the later ones start neither at the start of the line nor where that one stops. -/
theorem PartOf.later {a b : Cursor} {u : List Char} (h : PartOf s c e a u b) (hca : c.Reaches a)
    (hlo : lo ≤ c.offset) (hs : ∀ t ∈ spans, s.stop < t.start) :
    lo ≤ b.offset ∧ ∀ t ∈ spans, max b.offset t.start = max lo t.start := by
  have hle := Nat.le_trans hca.le h.path.le
  have hstop := h.stop
  refine ⟨by omega, fun t ht => ?_⟩
  have := hs t ht
  omega

/-- A line that starts at `lo` writes its placeholders, whether or not `c` is its start. -/
theorem WritesLine.literalText_eq (h : WritesLine e c indent spans ps) (hc : c.On source)
    (hapart : spans.Pairwise fun s t => s.stop < t.start) (hlo : lo ≤ c.offset)
    (hstart : ∀ s ∈ spans, max c.offset s.start = max lo s.start) :
    literalText ps = spans.flatMap (placeholderIn source ⟨lo, e.offset⟩) := by
  induction h with
  | rest hrun => exact hrun.literalText_eq
  | blank hrun hpart hblank _ ih =>
    have ha := hc.reaches hrun.reaches
    obtain ⟨hs, hspans⟩ := List.pairwise_cons.mp hapart
    have hfirst := hpart.placeholderIn_eq ha (hstart _ List.mem_cons_self)
    obtain ⟨hb, hstarts⟩ := hpart.later hrun.reaches hlo hs
    rw [literalText_append, hrun.literalText_eq, List.flatMap_cons, hfirst, if_pos hblank,
      ih (ha.reaches hpart.path.reaches) hspans hb hstarts]
  | shows hrun hpart hshows _ ih =>
    have ha := hc.reaches hrun.reaches
    obtain ⟨hs, hspans⟩ := List.pairwise_cons.mp hapart
    have hfirst := hpart.placeholderIn_eq ha (hstart _ List.mem_cons_self)
    obtain ⟨hb, hstarts⟩ := hpart.later hrun.reaches hlo hs
    rw [literalText_append, hrun.literalText_eq, literalText_literal, List.flatMap_cons, hfirst,
      if_neg hshows, ih (ha.reaches hpart.path.reaches) hspans hb hstarts, List.nil_append]

theorem literalText_lineOf (hhidden : ∀ h ∈ hidden, h.InText source)
    (hapart : hidden.Pairwise fun s t => s.stop < t.start) (bases : List (Span × Nat)) (hc : c.On source) :
    literalText (lineOf hidden bases c) =
      hidden.flatMap (placeholderIn source (c.spanTo c.lineEnd.offset)) := by
  rw [(writesLine_lineOf hhidden hapart bases hc).literalText_eq hc (hapart.filter _) (Nat.le_refl _)
    fun _ _ => rfl]
  exact flatMap_onLine hidden _ _

theorem literalText_feedOf (ps : List Piece) : literalText (feedOf hidden c :: ps) =
    (if hidden.any (·.contains c.lineEnd.offset) then ['\n'] else []) ++ literalText ps := by
  rw [feedOf]
  split
  · rfl
  · rfl

theorem literalText_linesPieces (hhidden : ∀ h ∈ hidden, h.InText source)
    (hapart : hidden.Pairwise fun s t => s.stop < t.start) (bases : List (Span × Nat)) (c : Cursor)
    (hc : c.On source) : literalText (linesPieces hidden bases c.offset (splitLines c.rest)) =
      c.lines.flatMap (ownOnLine source hidden) := by
  revert hc
  refine linesPieces_induction (motive := fun c ps => c.On source →
    literalText ps = c.lines.flatMap (ownOnLine source hidden)) ?_ ?_ c
  · intro c hlast hc
    rw [literalText_lineOf hhidden hapart bases hc]
    by_cases hne : c.rest = []
    · rw [lines_of_nil hne, lineEnd_of_isLineEnd (isLineEnd_iff.mpr (.inl hne)), List.flatMap_nil,
        List.flatMap_eq_nil_iff]
      intro s _
      refine placeholderIn_of_empty ?_
      simp only [Span.common, Span.length, spanTo]
      omega
    · have hnext : c.nextLine.rest = [] := by rw [nextLine, rest_drop, hlast, List.drop_nil]
      have hfree : ¬ hidden.any (·.contains c.lineEnd.offset) = true := by
        rw [lineEnd_eq_ofEnd hc hlast, List.any_eq_true]
        rintro ⟨s, hs, ho⟩
        have hbounded := (hhidden s hs).bounded
        have hlt := (Span.contains_iff.mp ho).2
        exact absurd hlt (Nat.not_lt.mpr hbounded)
      rw [lines_of_ne_nil hne, lines_of_nil hnext, List.flatMap_cons, List.flatMap_nil, List.append_nil,
        ownOnLine, if_neg hfree, List.append_nil]
  · intro c ps hfeed ih hc
    have hnext := hc.reaches ((path_lineEnd c).trans hfeed).reaches
    rw [literalText_append, literalText_lineOf hhidden hapart bases hc, literalText_feedOf, ih hnext,
      lines_of_ne_nil (rest_ne_nil_of_feed hfeed), List.flatMap_cons, ownOnLine, List.append_assoc]

end Own

/-! ## Views of a whole source -/

section Whole

variable {bases : List (Span × Nat)} {run : List Piece × Nat}

theorem WritesRun.straight (h : WritesRun c d 0 run) : Straight c run.1 d := by
  have hnone : ∀ {front : List Char} {m : Cursor}, c.Path front m → front.length ≤ 0 → c = m := by
    intro front m hfront hle
    rw [List.length_eq_zero_iff.mp (Nat.le_zero.mp hle)] at hfront
    exact hfront.drop_length
  cases h with
  | copied hfront _ hle hm _ =>
    obtain ⟨t, ht⟩ := hm
    rw [← hnone hfront hle] at ht ⊢
    exact .cons ht (.nil d)
  | dropped hfront _ hle =>
    rw [hnone hfront hle]
    exact .nil d

/-- Where nothing is hidden and no indent is dropped, all is copied. -/
theorem straight_linesPieces (hbases : ∀ o, lineIndent bases o = 0) (c : Cursor) (hc : c.On source) :
    Straight c (linesPieces [] bases c.offset (splitLines c.rest)) (ofEnd source) := by
  have hline : ∀ {c : Cursor}, c.On source → Straight c (lineOf [] bases c) c.lineEnd := by
    intro c hc
    have hwrites := writesLine_lineOf (by simp) .nil bases hc
    rw [hbases] at hwrites
    cases hwrites with
    | rest hrun => exact hrun.straight
  revert hc
  refine linesPieces_induction (motive := fun c ps => c.On source → Straight c ps (ofEnd source)) ?_ ?_ c
  · intro c hlast hc
    have hlast' := hline hc
    rwa [lineEnd_eq_ofEnd hc hlast] at hlast'
  · intro c ps hfeed ih hc
    have hnext := hc.reaches ((path_lineEnd c).trans hfeed).reaches
    exact (hline hc).append (.cons hfeed (ih hnext))

theorem lineIndent_eq_zero (hsorted : content.Sorted) (h : ∀ o, content.contains o = false) (o : Nat) :
    lineIndent (content.ranges.map fun s => (s, baseIndent source s)) o = 0 := by
  by_cases hpos : 0 < lineIndent (content.ranges.map fun s => (s, baseIndent source s)) o
  · have hcontains := contains_of_lineIndent hsorted hpos
    rw [h o] at hcontains
    cases hcontains
  · omega

theorem merged_eq_nil {set : RangeSet} (hsorted : set.Sorted) (h : ∀ o, set.contains o = false) :
    set.merged = [] := by
  refine List.eq_nil_iff_forall_not_mem.mpr fun s hs => ?_
  have hlt := (RangeSet.separated_merged hsorted).nonempty s hs
  have hcontains := RangeSet.exists_merged_iff.mp
    ⟨s, hs, Span.contains_iff.mpr ⟨Nat.le_refl s.start, hlt⟩⟩
  rw [h s.start] at hcontains
  cases hcontains

theorem view_of_empty {nonProse : RangeSet} (hsorted : nonProse.Sorted) (hcontent : content.Sorted)
    (hfree : ∀ o, nonProse.contains o = false) (hnone : ∀ o, content.contains o = false) :
    view source nonProse content = ⟨source, ⟨if source = [] then [] else [⟨0, 0, byteLength source⟩]⟩⟩ := by
  refine ofPieces_straight ?_
  rw [pieces, merged_eq_nil hsorted hfree]
  exact straight_linesPieces (lineIndent_eq_zero hcontent hnone) (ofText source) (on_ofText source)

end Whole

/-! ## The view -/

theorem bytes_of_shown {copied : List Span} (h : Shown source hidden (ofText source) (ofEnd source) copied) :
    copied.flatMap Span.bytes =
      (List.range (byteLength source)).filter fun o => copied.any (·.contains o) := by
  refine (flatMap_bytes_pairwise h.ascending).eq_of_mem_iff (List.pairwise_lt_range.filter _) fun o => ?_
  rw [mem_flatMap_bytes, List.mem_filter, List.mem_range, List.any_eq_true]
  refine ⟨fun ho => ⟨?_, ho⟩, fun ho => ho.2⟩
  obtain ⟨s, hs, hso⟩ := ho
  exact Nat.lt_of_lt_of_le (Span.contains_iff.mp hso).2 (h.within s hs).2

/-- What is copied of a source that is accounted for: a byte that is neither hidden nor copied is one of
the indent. -/
theorem bytes_of_accounted {nonProse : RangeSet} {copied : List Span}
    (h : Accounted source nonProse.merged content (ofText source) (ofEnd source) copied)
    (hshown : Shown source nonProse.merged (ofText source) (ofEnd source) copied) :
    ∃ dropped : Nat → Bool, (∀ o, dropped o = true → InIndent source content o) ∧
      copied.flatMap Span.bytes =
        (List.range (byteLength source)).filter fun o => !nonProse.contains o && !dropped o := by
  refine ⟨fun o => o < byteLength source && !nonProse.contains o && !copied.any (·.contains o), ?_, ?_⟩
  · intro o ho
    simp only [Bool.and_eq_true, decide_eq_true_eq, Bool.not_eq_true', List.any_eq_false] at ho
    obtain ⟨⟨hlt, hfree⟩, hnot⟩ := ho
    rcases h o (Nat.zero_le o) hlt with hhidden | ⟨s, hs, hso⟩ | hindent
    · rw [RangeSet.exists_merged_iff, hfree] at hhidden
      cases hhidden
    · exact absurd hso (hnot s hs)
    · exact hindent
  · rw [bytes_of_shown hshown]
    refine List.filter_congr fun o ho => ?_
    have hlt : o < byteLength source := List.mem_range.mp ho
    cases hany : copied.any (·.contains o) with
    | false =>
      simp only [hany, decide_eq_true hlt]
      cases nonProse.contains o <;> rfl
    | true =>
      obtain ⟨s, hs, hso⟩ := List.any_eq_true.mp hany
      have hfree : nonProse.contains o = false := by
        rw [← Bool.not_eq_true, ← RangeSet.exists_merged_iff]
        intro hhidden
        obtain ⟨t, ht, hto⟩ := hhidden
        exact hshown.avoids s hs t ht o ⟨hso, hto⟩
      simp only [hany, hfree, decide_eq_true hlt]
      rfl

theorem exact_view {nonProse : RangeSet} (hsorted : nonProse.Sorted) (hcontent : content.Sorted)
    (hin : ∀ s ∈ nonProse.ranges, s.InText source) :
    Exact source nonProse content (view source nonProse content) := by
  have hmerged := RangeSet.inText_merged hin
  have hapart := (RangeSet.separated_merged hsorted).apart
  have hshown := shown_pieces hmerged hapart content
  have haccounted := accounted_linesPieces hmerged hapart hcontent (ofText source) (on_ofText source)
    fun l hl => hl
  refine ⟨faithful_ofPieces hshown.inText hshown.pairwise, ?_, fun o ho => ?_, ?_⟩
  · rw [view, sourceBytes_ofPieces hshown.inText]
    exact bytes_of_accounted haccounted hshown
  · rw [← Option.not_isSome_iff_eq_none, view, maps_ofPieces hshown.inText hshown.pairwise]
    rintro ⟨s, hs, hso⟩
    obtain ⟨t, ht, hto⟩ := RangeSet.exists_merged_iff.mpr ho
    exact hshown.avoids s hs t ht o ⟨hso, hto⟩
  · rw [view, ownText_ofPieces hshown.inText hshown.pairwise]
    exact literalText_linesPieces hmerged hapart _ (ofText source) (on_ofText source)

end Prose

/-- **The prose view is exact.** Whatever spans of the source it hides and whatever spans are the
contents of elements, the bytes that it has from its source are those that are not hidden, in order,
but for some spaces and tabs that only whitespace leads to on a line that starts in such a content.
All that it has of its own are the line feeds that are hidden, and a placeholder for each line and
merged hidden span that have a character in common that is not whitespace. If nothing is hidden and no
content holds a byte, it is the source, in one entry. -/
theorem prose_exact (source : List Char) (hidden contents : List Span)
    (hin : ∀ s ∈ hidden, s.InText source) :
    let nonProse := RangeSet.ofList hidden
    let content := RangeSet.ofList contents
    let view := Prose.view source nonProse content
    Prose.Exact source nonProse content view ∧
      ((∀ o, nonProse.contains o = false) → (∀ o, content.contains o = false) →
        view = ⟨source, ⟨if source = [] then [] else [⟨0, 0, byteLength source⟩]⟩⟩) := by
  intro nonProse content view
  have hsorted := RangeSet.sorted_ofList hidden
  have hcontent := RangeSet.sorted_ofList contents
  exact ⟨Prose.exact_view hsorted hcontent fun s hs => hin s (RangeSet.mem_ranges_ofList.mp hs),
    Prose.view_of_empty hsorted hcontent⟩

/-- An element over four lines, with two hidden spans that overlap over two of them, and its last line
feed hidden. The indent of its content is dropped. -/
theorem prose_exact_element :
    let source := "<A>\n  a (x\n  y) é\n</A>\n".toList
    let hidden : List Span := [⟨0, 3⟩, ⟨8, 12⟩, ⟨10, 15⟩, ⟨19, 24⟩]
    let view := Prose.view source (.ofList hidden) (.ofList [⟨3, 19⟩])
    view = ⟨"<!---->\na <!---->\n<!----> é\n<!---->\n".toList,
        ⟨[⟨3, 7, 1⟩, ⟨6, 8, 2⟩, ⟨15, 25, 4⟩]⟩⟩ ∧
      (∀ s ∈ hidden, s.InText source) ∧ Prose.Exact source (.ofList hidden) (.ofList [⟨3, 19⟩]) view ∧
      Prose.view "é\nb".toList (.ofList []) (.ofList []) = ⟨"é\nb".toList, ⟨[⟨0, 0, 4⟩]⟩⟩ := by
  intro source hidden view
  have hin : ∀ s ∈ hidden, s.InText source := by
    simp only [hidden, List.forall_mem_cons]
    exact ⟨⟨by decide, by decide, by decide, by decide⟩, ⟨by decide, by decide, by decide, by decide⟩,
      ⟨by decide, by decide, by decide, by decide⟩, ⟨by decide, by decide, by decide, by decide⟩, by simp⟩
  have hnone : ∀ o, (RangeSet.ofList []).contains o = false := by
    intro o
    rw [← Bool.not_eq_true, RangeSet.contains_ofList]
    simp
  have hsorted : RangeSet.ofList hidden = ⟨hidden⟩ := by
    rw [RangeSet.ofList, List.mergeSort_of_pairwise (by decide)]
    decide
  have hcontent : RangeSet.ofList [⟨3, 19⟩] = ⟨[⟨3, 19⟩]⟩ := by
    rw [RangeSet.ofList, List.mergeSort_of_pairwise (by decide)]
    decide
  refine ⟨?_, hin, (prose_exact source hidden [⟨3, 19⟩] hin).1, ?_⟩
  · unfold view source
    rw [hsorted, hcontent]
    decide +kernel
  · exact (prose_exact "é\nb".toList [] [] (by simp)).2 hnone hnone

end Mdx

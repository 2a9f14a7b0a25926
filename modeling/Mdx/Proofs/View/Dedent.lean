/-
Prose in an element is written without the indent that its content shares. A line
that starts with prose in a content and is not blank loses exactly the base of the
innermost content that holds its start, and nothing else but what is hidden.

No hidden byte is in the indent of such a line (`StartsHidden.onLine`), so what is
dropped is dropped at once: the line is written as its part behind the base would
be without any indent to drop (`lineOf_dedent`), and all that is known of lines
holds of that part. The line of the view is found again by the line feeds before
it (`exists_around`).
-/
import Mdx.Proofs.Regions.Start
import Mdx.Proofs.View.Exact
import Mdx.Proofs.View.Indent

namespace Mdx

open Cursor

namespace Cursor

variable {c d : Cursor}

/-- What is behind the indent of a line does not start with a space or a tab. -/
theorem head?_skipIndent : ∀ ch, c.skipIndent.rest.head? = some ch → isIndent ch = false := by
  rw [skipIndent, rest_skipWhile]
  exact Prose.head?_dropIndent c.rest

theorem indentOf_line (c : Cursor) : Prose.indentOf c.line = (c.rest.takeWhile isIndent).length := by
  rw [line_eq_indent]
  refine Prose.indentOf_append forall_mem_takeWhile fun ch hch => head?_skipIndent (c := c) ch ?_
  obtain ⟨later, hlater⟩ := List.head?_eq_some_iff.mp hch
  rw [(path_lineEnd c.skipIndent).rest, hlater]
  rfl

theorem offset_skipIndent (c : Cursor) : c.skipIndent.offset = c.offset + Prose.indentOf c.line := by
  rw [indentOf_line, ← Prose.byteLength_of_isIndent forall_mem_takeWhile]
  exact (path_skipWhile c isIndent).offset

/-- From all places in the indent of a line up to its end this end is the same. -/
theorem skipIndent_eq_of_le (h : c.Reaches d) (hle : d.offset ≤ c.skipIndent.offset) :
    d.skipIndent = c.skipIndent := by
  obtain ⟨t, ht⟩ := h
  obtain ⟨v, hsplit, hv⟩ := ht.split (path_skipWhile c isIndent) hle
  have hindent : ∀ ch ∈ v, isIndent ch = true := fun ch hch =>
    forall_mem_takeWhile ch (hsplit ▸ List.mem_append_right t hch)
  have hnone : c.skipIndent.rest.takeWhile isIndent = [] := by
    have hoffset := (path_skipWhile c.skipIndent isIndent).offset
    rw [show c.skipIndent.skipWhile isIndent = c.skipIndent from skipIndent_skipIndent c] at hoffset
    exact byteLength_eq_zero (by omega)
  have htake : d.rest.takeWhile isIndent = v := by
    rw [hv.rest, List.takeWhile_append_of_pos hindent]
    exact (congrArg (v ++ ·) hnone).trans (List.append_nil v)
  have hp := path_skipWhile d isIndent
  rw [htake] at hp
  exact hp.drop_length.symm.trans hv.drop_length

end Cursor

namespace Prose

variable {source : List Char} {hidden : List Span} {bases : List (Span × Nat)} {c line : Cursor}

/-! ## What is dropped is dropped at once -/

section Dedent

variable {front rest : List Char} {pos stop : Nat} {spans : List Span}

theorem dropBytes_append_add (a b : List Char) (n : Nat) :
    dropBytes (a ++ b) (byteLength a + n) = dropBytes b n := by
  have hwhole := takeBytes_append_dropBytes (a ++ b) (byteLength a + n)
  rw [takeBytes_append_add, List.append_assoc, List.append_cancel_left_eq] at hwhole
  exact List.append_cancel_left (hwhole.trans (takeBytes_append_dropBytes b n).symm)

theorem prosePieces_dedent (hfront : ∀ ch ∈ front, isIndent ch = true) (hstop : pos + front.length ≤ stop)
    (rest : List Char) : linePieces.prosePieces front.length pos stop (front ++ rest) =
      linePieces.prosePieces 0 (pos + front.length) stop rest := by
  have htake : takeBytes (front ++ rest) (stop - pos) =
      front ++ takeBytes rest (stop - (pos + front.length)) := by
    have hlength : stop - pos = front.length + (stop - (pos + front.length)) := by omega
    rw [hlength, ← byteLength_of_isIndent hfront, takeBytes_append_add]
  have hall : indentOf front = front.length := by
    have hwhole : indentOf (front ++ []) = front.length := indentOf_append hfront (by simp)
    rwa [List.append_nil] at hwhole
  simp only [linePieces.prosePieces, htake, List.take_left, hall, List.take_zero]
  simp [indentOf]

theorem linePieces_dedent (hfront : ∀ ch ∈ front, isIndent ch = true) (hstop : pos + front.length ≤ stop)
    (hspans : ∀ s ∈ spans, pos + front.length ≤ s.start ∧ s.start ≤ s.stop) :
    linePieces front.length pos stop (front ++ rest) spans =
      linePieces 0 (pos + front.length) stop rest spans := by
  cases spans with
  | nil => simp only [linePieces, prosePieces_dedent hfront hstop]
  | cons s spans =>
    obtain ⟨hlo, hle⟩ := hspans s List.mem_cons_self
    have hdrop (n : Nat) (hn : pos + front.length ≤ n) :
        dropBytes (front ++ rest) (n - pos) = dropBytes rest (n - (pos + front.length)) := by
      have hlength : n - pos = front.length + (n - (pos + front.length)) := by omega
      rw [hlength, ← byteLength_of_isIndent hfront, dropBytes_append_add]
    have hstart : max pos s.start = s.start := by omega
    have hstart' : max (pos + front.length) s.start = s.start := by omega
    simp only [linePieces, hstart, hstart', prosePieces_dedent hfront hlo, hdrop s.start hlo,
      hdrop (min s.stop stop) (by omega)]

end Dedent

/-- No hidden span of the line starts among the characters that indent it. -/
def IndentFree (hidden : List Span) (line : Cursor) : Prop :=
  ∀ s ∈ hidden, line.offset < s.stop → s.start < line.lineEnd.offset → line.skipIndent.offset ≤ s.start

/-- A line with the indent that is dropped at its start is written as what is behind it. -/
theorem lineOf_dedent {m : Cursor} {front : List Char} (hordered : ∀ s ∈ hidden, s.start < s.stop)
    (hfree : IndentFree hidden line) (hfront : line.Path front m)
    (hle : m.offset ≤ line.skipIndent.offset) (hindent : lineIndent bases line.offset = front.length) :
    lineOf hidden bases line = lineOf hidden [] m := by
  obtain ⟨v, hsplit, hv⟩ := hfront.split (path_skipWhile line isIndent) hle
  have hall : ∀ ch ∈ front, isIndent ch = true := fun ch hch =>
    forall_mem_takeWhile ch (hsplit ▸ List.mem_append_left v hch)
  have hoffset : m.offset = line.offset + front.length := by
    rw [hfront.offset, byteLength_of_isIndent hall]
  have hend := (reaches_lineEnd_skipIndent line).le
  have hsame : m.lineEnd = line.lineEnd := lineEnd_eq_of_le hfront.reaches (by omega)
  have hline : line.line = front ++ m.line := by
    have hwhole := hfront.trans (path_lineEnd m)
    rw [hsame] at hwhole
    exact (path_lineEnd line).upTo.symm.trans hwhole.upTo
  have hspans : (hidden.filter fun s => line.offset < s.stop && s.start < line.lineEnd.offset) =
      hidden.filter fun s => m.offset < s.stop && s.start < m.lineEnd.offset := by
    refine List.filter_congr fun s hs => ?_
    have hnonempty := hordered s hs
    rw [hsame, Bool.eq_iff_iff]
    simp only [Bool.and_eq_true, decide_eq_true_eq]
    have := hfree s hs
    omega
  rw [lineOf, lineOf, hspans, hindent, hsame, hline, linePieces_dedent hall (by omega), ← hoffset]
  · rfl
  · intro s hs
    obtain ⟨hmem, hon⟩ := List.mem_filter.mp hs
    simp only [Bool.and_eq_true, decide_eq_true_eq] at hon
    have hnonempty := hordered s hmem
    have := hfree s hmem (by omega) hon.2
    omega

/-! ## What is written of a line without indent to drop -/

/-- All of the line that is not hidden is copied. -/
theorem mem_copied_lineOf (hhidden : ∀ s ∈ hidden, s.InText source)
    (hapart : hidden.Pairwise fun s t => s.stop < t.start) (hc : c.On source) {o : Nat}
    (hlo : c.offset ≤ o) (hhi : o < c.lineEnd.offset) :
    (∃ s ∈ copiedSpans (lineOf hidden [] c), s.contains o = true) ↔
      ∀ s ∈ hidden, s.contains o = false := by
  have hshown := shown_lineOf hhidden hapart [] hc
  have haccounted : Accounted source hidden .empty c c.lineEnd (copiedSpans (lineOf hidden [] c)) :=
    (writesLine_lineOf hhidden hapart [] hc).accounted (Nat.le_refl c.lineEnd.offset)
      (fun s hs => (List.mem_filter.mp hs).1) fun hpos => absurd hpos (Nat.lt_irrefl 0)
  constructor
  · rintro ⟨s, hs, hso⟩ t ht
    exact Bool.eq_false_iff.mpr fun hto => hshown.avoids s hs t ht o ⟨hso, hto⟩
  · intro hfree
    rcases haccounted o hlo hhi with ⟨s, hs, hso⟩ | hcopied | ⟨l, d, hleads, -⟩
    · rw [hfree s hs] at hso
      cases hso
    · exact hcopied
    · exact absurd hleads.inContent (by simp [RangeSet.contains, RangeSet.merged, RangeSet.empty])

/-- A run without indent to drop is written as it stands. -/
theorem WritesRun.text_eq {d : Cursor} {ps : List Piece} {left : Nat} (h : WritesRun c d 0 (ps, left))
    (hc : c.On source) : c.Path (ps.flatMap (Piece.text source)) d := by
  generalize hrun : (ps, left) = run at h
  cases h with
  | @copied m front hfront _ hle hm _ =>
    cases hrun
    have hnil : front = [] := List.length_eq_zero_iff.mp (Nat.le_zero.mp hle)
    subst hnil
    have hsame : m = c := hfront.eq_of_offset_eq (.refl c) (by simpa using hfront.offset)
    subst hsame
    obtain ⟨t, ht⟩ := hm
    simpa [Piece.text, hc.slice ht] using ht
  | @dropped front hfront _ hle =>
    cases hrun
    have hnil : front = [] := List.length_eq_zero_iff.mp (Nat.le_zero.mp hle)
    subst hnil
    exact hfront

/-- What starts as a line does, up to a place behind its indent, has the indent of the line. -/
theorem indentOf_of_path {a : Cursor} {t : List Char} (ht : c.Path t a) (hlt : c.skipIndent.offset < a.offset)
    (rest : List Char) : indentOf (t ++ rest) = indentOf c.line := by
  obtain ⟨v, rfl, hv⟩ := (path_skipWhile c isIndent).split ht (Nat.le_of_lt hlt)
  obtain ⟨ch, v, rfl⟩ := List.exists_cons_of_ne_nil (hv.ne_nil hlt)
  have hch : isIndent ch = false := head?_skipIndent (c := c) ch (by rw [skipIndent, hv.rest]; rfl)
  rw [indentOf_line, List.append_assoc, indentOf_append forall_mem_takeWhile (by simpa using hch)]

/-- Hidden content starts on the line behind its indent; if it starts right there, it shows. -/
def StartsBehindIndent (source : List Char) (hidden : List Span) (line : Cursor) : Prop :=
  ∀ s ∈ hidden, line.offset < s.stop → s.start < line.lineEnd.offset →
    line.skipIndent.offset < s.start ∨ (line.skipIndent.offset = s.start ∧ ∃ ch, ShowsAt source s.start ch)

/-- The line is written with the indent that it has. -/
theorem indentOf_lineOf (hhidden : ∀ s ∈ hidden, s.InText source)
    (hapart : hidden.Pairwise fun s t => s.stop < t.start) (hordered : ∀ s ∈ hidden, s.start < s.stop)
    (hc : c.On source) (hstarts : StartsBehindIndent source hidden c) :
    indentOf ((lineOf hidden [] c).flatMap (Piece.text source)) = indentOf c.line := by
  have hwrites := writesLine_lineOf hhidden hapart [] hc
  have hspans : ∀ s ∈ hidden.filter fun s => c.offset < s.stop && s.start < c.lineEnd.offset,
      (c.offset < s.stop ∧ s.start < c.lineEnd.offset) ∧ s.start < s.stop ∧
        (c.skipIndent.offset < s.start ∨
          (c.skipIndent.offset = s.start ∧ ∃ ch, ShowsAt source s.start ch)) := by
    intro s hs
    obtain ⟨hmem, hon⟩ := List.mem_filter.mp hs
    simp only [Bool.and_eq_true, decide_eq_true_eq] at hon
    exact ⟨hon, hordered s hmem, hstarts s hmem hon.1 hon.2⟩
  generalize (hidden.filter fun s => c.offset < s.stop && s.start < c.lineEnd.offset) = spans
    at hwrites hspans
  have hskip := (reaches_skipIndent c).le
  generalize hpieces : lineOf hidden [] c = ps at hwrites
  cases hwrites with
  | rest hrun =>
    have htext := (hrun.text_eq hc).upTo
    rw [← htext, (path_lineEnd c).upTo]
  | @blank _ a b u _ _ s _ qs _ hrun hpart hblank _ =>
    obtain ⟨hon, hnonempty, hstart⟩ := hspans s List.mem_cons_self
    have ha := hpart.start
    have hb := hpart.stop
    rw [List.flatMap_append]
    rcases hstart with hlt | ⟨heq, ch, hshows⟩
    · exact indentOf_of_path (hrun.text_eq hc) (by omega) _
    · -- The hidden part starts with a character that shows, so it is not blank.
      obtain ⟨x, hx, hoffset, rest, hrest⟩ := on_of_charAt? hshows.stands
      have hsame : x = a := hx.eq_of_offset_eq (hc.reaches hrun.reaches) (by omega)
      subst hsame
      have hmem := (hpart.path.head_mem hrest (by omega)).1
      have := List.all_eq_true.mp hblank ch hmem
      rw [hshows.shows] at this
      cases this
  | @shows _ a b u _ _ s _ qs _ hrun hpart _ _ =>
    obtain ⟨hon, hnonempty, hstart⟩ := hspans s List.mem_cons_self
    have ha := hpart.start
    have htext := hrun.text_eq hc
    rw [List.flatMap_append]
    rcases hstart with hlt | ⟨heq, -⟩
    · exact indentOf_of_path htext (by omega) _
    · have hsame : a = c.skipIndent := htext.reaches.eq_of_offset_eq (reaches_skipIndent c) (by omega)
      have hindent : qs.flatMap (Piece.text source) = c.rest.takeWhile isIndent := by
        rw [hsame] at htext
        exact htext.upTo.symm.trans (path_skipWhile c isIndent).upTo
      rw [hindent, indentOf_line]
      exact indentOf_append forall_mem_takeWhile (by simp [Piece.text, placeholder]; decide)

/-! ## A line among the others -/

/-- The pieces before and behind those of a line: they copy nothing of the line, and as many lines are
written before it as stand before it in the source, from the place `c` on. -/
structure Around (source : List Char) (c line : Cursor) (before after : List Piece) : Prop where
  inStep : InStep source (feedsBefore source c.offset) before (feedsBefore source line.offset)
  copiedBefore : ∀ s ∈ copiedSpans before, s.stop ≤ line.offset
  copiedAfter : ∀ s ∈ copiedSpans after, line.lineEnd.offset ≤ s.start
  textBefore : before.flatMap (Piece.text source) = [] ∨
    (before.flatMap (Piece.text source)).getLast? = some '\n'
  textAfter : after.flatMap (Piece.text source) = [] ∨
    (after.flatMap (Piece.text source)).head? = some '\n'

theorem text_feedOf (hc : c.On source) (hfeed : c.lineEnd.Path ['\n'] c.nextLine) :
    (feedOf hidden c).text source = ['\n'] := by
  rw [feedOf]
  split
  · rfl
  · exact (hc.reaches (path_lineEnd c).reaches).slice hfeed

/-- A line and its line feed before the pieces around a later one. -/
theorem Around.cons {before after : List Piece} (hhidden : ∀ s ∈ hidden, s.InText source)
    (hapart : hidden.Pairwise fun s t => s.stop < t.start) (hc : c.On source)
    (hfeed : c.lineEnd.Path ['\n'] c.nextLine) (hle : c.nextLine.offset ≤ line.offset)
    (h : Around source c.nextLine line before after) :
    Around source c line (lineOf hidden bases c ++ feedOf hidden c :: before) after where
  inStep := (inStep_lineOf hhidden hapart bases hc).append ((inStep_feedOf hc hfeed).append h.inStep)
  copiedBefore := by
    have hend := hfeed.le
    rw [copiedSpans_append, copiedSpans_cons]
    refine List.forall_mem_append.mpr ⟨fun s hs => ?_, List.forall_mem_append.mpr
      ⟨fun s hs => ?_, h.copiedBefore⟩⟩
    · have := ((shown_lineOf hhidden hapart bases hc).within s hs).2
      omega
    · have := ((shown_feedOf hc hfeed).within s hs).2
      omega
  copiedAfter := h.copiedAfter
  textBefore := by
    right
    rw [List.flatMap_append, List.flatMap_cons, text_feedOf hc hfeed, ← List.append_assoc,
      List.getLast?_append]
    rcases h.textBefore with hnil | hlast
    · rw [hnil]
      simp
    · rw [hlast]
      rfl
  textAfter := h.textAfter

/-- The first line of a text that goes on, before the pieces behind it. -/
theorem around_first {ps : List Piece} (hc : c.On source) (hfeed : c.lineEnd.Path ['\n'] c.nextLine)
    (hlater : ∀ s ∈ copiedSpans ps, c.nextLine.offset ≤ s.start) :
    Around source c c [] (feedOf hidden c :: ps) := by
  have hle := hfeed.le
  refine ⟨.nil, by simp, ?_, .inl rfl, .inr ?_⟩
  · rw [copiedSpans_cons]
    refine List.forall_mem_append.mpr ⟨fun s hs => ?_, fun s hs => ?_⟩
    · exact ((shown_feedOf hc hfeed).within s hs).1
    · exact Nat.le_trans hle (hlater s hs)
  · rw [List.flatMap_cons, text_feedOf hc hfeed]
    rfl

/-- The pieces of a line stand between those of the lines around it. -/
theorem exists_around (hhidden : ∀ s ∈ hidden, s.InText source)
    (hapart : hidden.Pairwise fun s t => s.stop < t.start) (bases : List (Span × Nat)) (c : Cursor)
    (hc : c.On source)
    (hmem : line ∈ c.lines) : ∃ before after,
      linesPieces hidden bases c.offset (splitLines c.rest) = before ++ lineOf hidden bases line ++ after ∧
        Around source c line before after := by
  -- The pieces from a line on copy only from there on, so those behind it copy nothing of the line.
  suffices h : (∀ s ∈ copiedSpans (linesPieces hidden bases c.offset (splitLines c.rest)),
      c.offset ≤ s.start) ∧ (line ∈ c.lines → ∃ before after,
        linesPieces hidden bases c.offset (splitLines c.rest) = before ++ lineOf hidden bases line ++ after ∧
          Around source c line before after) from h.2 hmem
  clear hmem
  revert hc
  refine linesPieces_induction (motive := fun c ps => c.On source →
    (∀ s ∈ copiedSpans ps, c.offset ≤ s.start) ∧ (line ∈ c.lines → ∃ before after,
      ps = before ++ lineOf hidden bases line ++ after ∧ Around source c line before after)) ?_ ?_ c
  · intro c hlast hc
    refine ⟨fun s hs => ((shown_lineOf hhidden hapart bases hc).within s hs).1, fun hmem => ?_⟩
    have hnext : c.nextLine.rest = [] := by
      rw [nextLine, rest_drop, hlast]
      rfl
    have hsame : line = c := by
      by_cases hnil : c.rest = []
      · rw [lines_of_nil hnil] at hmem
        cases hmem
      · rw [lines_of_ne_nil hnil, lines_of_nil hnext] at hmem
        exact List.mem_singleton.mp hmem
    subst hsame
    exact ⟨[], [], by simp, .nil, by simp, by simp, .inl rfl, .inl rfl⟩
  · intro c ps hfeed ih hc
    have hnext := hc.reaches ((path_lineEnd c).trans hfeed).reaches
    obtain ⟨hlater, hfind⟩ := ih hnext
    have hle := (path_lineEnd c).le
    refine ⟨?_, fun hmem => ?_⟩
    · have hfirst : Around source c c [] (feedOf hidden c :: ps) := around_first hc hfeed hlater
      rw [copiedSpans_append]
      refine List.forall_mem_append.mpr ⟨fun s hs => ?_, fun s hs => ?_⟩
      · exact ((shown_lineOf hhidden hapart bases hc).within s hs).1
      · exact Nat.le_trans hle (hfirst.copiedAfter s hs)
    · rw [lines_of_ne_nil (rest_ne_nil_of_feed hfeed), List.mem_cons] at hmem
      rcases hmem with rfl | hmem
      · exact ⟨[], feedOf hidden line :: ps, by simp, around_first hc hfeed hlater⟩
      · obtain ⟨before, after, rfl, haround⟩ := hfind hmem
        refine ⟨lineOf hidden bases c ++ feedOf hidden c :: before, after, by simp, ?_⟩
        exact haround.cons hhidden hapart hc hfeed (reaches_of_mem_lines hmem).le

/-! ## Lines of prose in a content -/

/-- The line is written in the text without its first `base` bytes, which are spaces and tabs of prose.
All else of it that is not hidden is kept, and so is the rest of its indent. -/
structure Dedented (source : List Char) (nonProse : RangeSet) (view : GeneratedText) (line : Cursor)
    (base : Nat) : Prop where
  enough : base ≤ indentOf line.line
  prose : ∀ o, line.offset ≤ o → o < line.offset + base → nonProse.contains o = false
  kept : ∀ o, line.offset ≤ o → o < line.lineEnd.offset →
    ((view.mapping.toGenerated o).isSome = true ↔ nonProse.contains o = false ∧ line.offset + base ≤ o)
  indent : ∃ written, (splitLines view.text)[feedsBefore source line.offset]? = some written ∧
    indentOf written + base = indentOf line.line

section Lines

variable {nonProse content : RangeSet} {base : Nat}

/-- The bases of the contents, as the view looks them up. -/
def contentBases (source : List Char) (content : RangeSet) : List (Span × Nat) :=
  content.ranges.map fun s => (s, baseIndent source s)

theorem StartsBehindIndent.indentFree (h : StartsBehindIndent source hidden line) : IndentFree hidden line := by
  intro s hs hstop hstart
  rcases h s hs hstop hstart with hlt | ⟨heq, -⟩
  · exact Nat.le_of_lt hlt
  · exact Nat.le_of_eq heq

/-- What is known of where hidden content starts on a line holds of its part behind some indent. -/
theorem StartsBehindIndent.behind {m : Cursor} (h : StartsBehindIndent source hidden line)
    (hm : line.Reaches m) (hle : m.offset ≤ line.skipIndent.offset) : StartsBehindIndent source hidden m := by
  have hend := (reaches_lineEnd_skipIndent line).le
  intro s hs hstop hstart
  rw [lineEnd_eq_of_le hm (by omega)] at hstart
  rw [skipIndent_eq_of_le hm hle]
  exact h s hs (Nat.lt_of_le_of_lt hm.le hstop) hstart

/-- No byte of the indent is hidden if the first byte of the line is not. -/
theorem contains_eq_false_of_indent (hstarts : StartsBehindIndent source nonProse.merged line)
    (hfirst : nonProse.contains line.offset = false) {o : Nat} (hlo : line.offset ≤ o)
    (hhi : o < line.skipIndent.offset) : nonProse.contains o = false := by
  rw [← Bool.not_eq_true, ← RangeSet.exists_merged_iff] at hfirst ⊢
  rintro ⟨s, hs, hso⟩
  have hend := (reaches_lineEnd_skipIndent line).le
  rw [Span.contains_iff] at hso
  by_cases hstart : s.start ≤ line.offset
  · exact hfirst ⟨s, hs, Span.contains_iff.mpr ⟨hstart, by omega⟩⟩
  · have := hstarts.indentFree s hs (by omega) (by omega)
    omega

/-- The place behind the indent that is dropped. -/
theorem exists_behind_base (hle : base ≤ indentOf line.line) : ∃ (front : List Char) (m : Cursor),
    line.Path front m ∧ front.length = base ∧ m.offset = line.offset + base ∧
      m.offset ≤ line.skipIndent.offset := by
  rw [indentOf_line] at hle
  have hsplit := List.takeWhile_append_dropWhile (p := isIndent) (l := line.rest)
  have htake : line.rest.take base = (line.rest.takeWhile isIndent).take base := by
    conv => lhs; rw [← hsplit]
    exact List.take_append_of_le_length hle
  have hall : ∀ ch ∈ line.rest.take base, isIndent ch = true := fun ch hch =>
    forall_mem_takeWhile ch (List.mem_of_mem_take (htake ▸ hch))
  have hlength : (line.rest.take base).length = base := by
    rw [htake, List.length_take]
    omega
  have hpath := path_drop line base
  have hoffset : (line.drop base).offset = line.offset + base := by
    rw [hpath.offset, byteLength_of_isIndent hall, hlength]
  refine ⟨_, _, hpath, hlength, hoffset, ?_⟩
  rw [hoffset, offset_skipIndent, indentOf_line]
  omega

/-- A byte of a line is copied from the whole source if it is copied with the line. -/
theorem Around.copied_iff {before after ps : List Piece} (h : Around source c line before after) {o : Nat}
    (hlo : line.offset ≤ o) (hhi : o < line.lineEnd.offset) :
    (∃ s ∈ copiedSpans (before ++ ps ++ after), s.contains o = true) ↔
      ∃ s ∈ copiedSpans ps, s.contains o = true := by
  simp only [copiedSpans_append, List.mem_append, or_and_right, exists_or]
  constructor
  · rintro ((⟨s, hs, hso⟩ | hcopied) | ⟨s, hs, hso⟩)
    · have := h.copiedBefore s hs
      have := (Span.contains_iff.mp hso).2
      omega
    · exact hcopied
    · have := h.copiedAfter s hs
      have := (Span.contains_iff.mp hso).1
      omega
  · exact fun hcopied => .inl (.inr hcopied)

/-- The text of a line is found among the lines of the whole text by the line feeds before it. -/
theorem Around.getElem?_splitLines {before after ps : List Piece}
    (h : Around source (ofText source) line before after)
    (hfeed : '\n' ∉ ps.flatMap (Piece.text source)) :
    (splitLines ((before ++ ps ++ after).flatMap (Piece.text source)))[feedsBefore source line.offset]? =
      some (ps.flatMap (Piece.text source)) := by
  have hzero : feedsBefore source (ofText source).offset = 0 := by simp [feedsBefore, ofText]
  have hcount := h.inStep.count_text
  rw [hzero, Nat.zero_add] at hcount
  rw [List.flatMap_append, List.flatMap_append, ← hcount]
  exact Prose.getElem?_splitLines h.textBefore hfeed h.textAfter

theorem feed_notMem_lineOf (hhidden : ∀ s ∈ hidden, s.InText source)
    (hapart : hidden.Pairwise fun s t => s.stop < t.start) (hc : c.On source) :
    '\n' ∉ (lineOf hidden bases c).flatMap (Piece.text source) := by
  have hwritten := (inStep_lineOf hhidden hapart bases hc).count_text
  have hline : '\n' ∉ c.line := fun hmem => absurd (forall_mem_takeWhile '\n' hmem) (by decide)
  rw [feedsBefore_path hc (path_lineEnd c), List.count_eq_zero.mpr hline] at hwritten
  exact List.count_eq_zero.mp (by omega)

/-- A line with its base at its start, and with nothing hidden there, is written without it. -/
theorem dedented_view (hin : ∀ s ∈ nonProse.ranges, s.InText source) (hsorted : nonProse.Sorted)
    (hmem : line ∈ (ofText source).lines) (hstarts : StartsBehindIndent source nonProse.merged line)
    (hfirst : nonProse.contains line.offset = false)
    (hbase : lineIndent (contentBases source content) line.offset = base)
    (hle : base ≤ indentOf line.line) :
    Dedented source nonProse (view source nonProse content) line base := by
  have hmerged := RangeSet.inText_merged hin
  have hseparated := RangeSet.separated_merged hsorted
  have hapart := hseparated.apart
  have hline : line.On source := (on_ofText source).reaches (reaches_of_mem_lines hmem)
  obtain ⟨front, m, hfront, hlength, hoffset, hskip⟩ := exists_behind_base hle
  have hm := hline.reaches hfront.reaches
  have hend : m.lineEnd = line.lineEnd :=
    lineEnd_eq_of_le hfront.reaches (Nat.le_trans hskip (reaches_lineEnd_skipIndent line).le)
  obtain ⟨before, after, hpieces, haround⟩ :=
    exists_around hmerged hapart (contentBases source content) (ofText source) (on_ofText source) hmem
  rw [lineOf_dedent hseparated.nonempty hstarts.indentFree hfront hskip (by rw [hbase, hlength])] at hpieces
  have hpieces : pieces source nonProse content = before ++ lineOf nonProse.merged [] m ++ after := hpieces
  refine ⟨hle, fun o hlo hhi => ?_, fun o hlo hhi => ?_,
    (lineOf nonProse.merged [] m).flatMap (Piece.text source), ?_, ?_⟩
  · exact contains_eq_false_of_indent hstarts hfirst hlo (by omega)
  · have hshown := shown_pieces hmerged hapart content
    rw [view, maps_ofPieces hshown.inText hshown.pairwise, hpieces, haround.copied_iff hlo hhi,
      ← Bool.not_eq_true, ← RangeSet.exists_merged_iff, ← hoffset]
    by_cases hbehind : m.offset ≤ o
    · rw [mem_copied_lineOf hmerged hapart hm hbehind (hend ▸ hhi)]
      simp [hbehind]
    · simp only [hbehind, and_false, iff_false]
      rintro ⟨s, hs, hso⟩
      have := ((shown_lineOf hmerged hapart [] hm).within s hs).1
      have := (Span.contains_iff.mp hso).1
      omega
  · show (splitLines ((pieces source nonProse content).flatMap (Piece.text source)))[_]? = _
    rw [hpieces]
    exact haround.getElem?_splitLines (feed_notMem_lineOf hmerged hapart hm)
  · rw [indentOf_lineOf hmerged hapart hseparated.nonempty hm (hstarts.behind hfront.reaches hskip)]
    have hhere := offset_skipIndent m
    rw [skipIndent_eq_of_le hfront.reaches hskip, offset_skipIndent line, hoffset] at hhere
    omega

end Lines

end Prose

/-! ## Documents -/

/-- A line of the text starts at each of its lines. -/
theorem Cursor.isLine_of_mem_lines {source : List Char} {line : Cursor} (h : line ∈ (ofText source).lines) :
    line.IsLine source := by
  have hall : ∀ c : Cursor, c.StartsLine source → line ∈ c.lines → line.IsLine source := by
    intro c
    induction c using line_induction with
    | nil c hnil =>
      intro _ hmem
      rw [lines_of_nil hnil] at hmem
      cases hmem
    | cons c hne ih =>
      intro hc hmem
      rw [lines_of_ne_nil hne, List.mem_cons] at hmem
      rcases hmem with rfl | hmem
      · exact hc.isLine hne
      · exact ih (startsLine_nextLine hc.on) hmem
  exact hall _ (startsLine_ofText source) h

open Prose in
/-- In a document that parses, a line that starts with prose in a content and is not blank is written
without the base of the innermost content there. -/
theorem dedented_of_parse {options : ParseOptions} {source : List Char} {root : Node}
    (h : parse options source = .ok root) {line : Cursor} (hmem : line ∈ (ofText source).lines)
    (hblank : line.isLineBlank = false)
    (hprose : (Regions.ofTree root).nonProse.contains line.offset = false)
    (hin : ∃ s, IsContent root s ∧ s.contains line.offset = true) :
    ∃ s, Innermost root line.offset s ∧ Dedented source (Regions.ofTree root).nonProse
      (view source (Regions.ofTree root).nonProse (Regions.ofTree root).content) line
      (baseIndent source s) := by
  obtain ⟨-, hspan, -, hplaced⟩ := parse_ok h
  have hsound := sound_of_parse h
  have hline := isLine_of_mem_lines hmem
  obtain ⟨s, hlast⟩ : ∃ s, ((Regions.ofTree root).content.ranges.filter
      (·.contains line.offset)).getLast? = some s := by
    obtain ⟨t, ht, hto⟩ := hin
    have hfound : t ∈ (Regions.ofTree root).content.ranges.filter (·.contains line.offset) :=
      List.mem_filter.mpr ⟨(mem_content_ofTree hplaced).mpr ht, hto⟩
    exact Option.isSome_iff_exists.mp (List.getLast?_isSome.mpr (List.ne_nil_of_mem hfound))
  have hinner := innermost_of_getLast? hplaced hspan hlast
  obtain ⟨y, hy, hoffset, hstops⟩ := content_stopsLine h hinner.isContent
  refine ⟨s, hinner, dedented_view hsound.nonProse_inText (Regions.nonProse_sorted _) hmem ?_ hprose ?_ ?_⟩
  · intro t ht hstop hstart
    refine (startsHidden_of_parse h t ht).onLine hline.on hblank (Nat.lt_of_not_le fun hle => ?_) hstart
    have hcontains : (Regions.ofTree root).nonProse.contains line.offset = true :=
      RangeSet.exists_merged_iff.mp ⟨t, ht, Span.contains_iff.mpr ⟨hle, hstop⟩⟩
    rw [hprose] at hcontains
    cases hcontains
  · rw [lineIndent, contentBases, List.filter_map, List.getLast?_map]
    simp only [Function.comp_def]
    rw [hlast]
    rfl
  · exact baseIndent_le_indentOf (content_inText hplaced hinner.isContent) hy hoffset hstops hline hblank
      hinner.contains

/-- **Prose in elements loses the indent that it shares.** Take a line of a document that parses that is
not blank, starts in the content of a block element and does so with prose. The prose view has it without
its first characters up to the base of the innermost content there. These are spaces and tabs, the line
has all of them, and it keeps the rest of its indent and all else that is not hidden. -/
theorem prose_drops_base {options : CompileOptions} {source : List Char} {root : Node}
    (h : parse options.parseOptions source = .ok root) :
    (∃ d ∈ (compile options source).allDocuments, d.language = .markdown) ∧
      ∀ d ∈ (compile options source).allDocuments, d.language = .markdown →
        ∀ line ∈ (ofText source).lines, line.isLineBlank = false →
          (Regions.ofTree root).nonProse.contains line.offset = false →
          (∃ s, IsContent root s ∧ s.contains line.offset = true) →
          ∃ s, Innermost root line.offset s ∧ Prose.Dedented source (Regions.ofTree root).nonProse
            ⟨d.text, d.mapping⟩ line (Prose.baseIndent source s) := by
  have hdocuments : (compile options source).allDocuments =
      (viewsOf options source root).flatMap DocumentGroup.all := by
    simp only [compile, h, Compilation.allDocuments]
  rw [hdocuments]
  simp only [viewsOf, DocumentGroup.all, List.flatMap_cons, List.flatMap_nil, List.append_nil,
    List.mem_append, List.mem_cons, List.not_mem_nil, or_false, List.mem_map]
  refine ⟨⟨.ofGenerated "md" .markdown _, .inr (.inl rfl), rfl⟩, ?_⟩
  rintro d (rfl | rfl | ⟨f, -, rfl⟩) hlanguage line hmem hblank hprose hin
  · cases hlanguage
  · exact dedented_of_parse h hmem hblank hprose hin
  · cases f with
    | mk dialect => cases dialect <;> cases hlanguage

/-- An element in an element: the lines of the paragraph lose the four characters that they share, and
the second one keeps two more. -/
theorem prose_drops_base_nested :
    let source := "<A>\n  <B>\n    x\n      y\n  </B>\n</A>\n".toList
    let paragraph : Node := .branch .paragraph ⟨14, 23⟩ [.leaf .text ⟨14, 23⟩]
    let root : Node := .branch .root ⟨0, 36⟩ [.branch (.blockElement ⟨some "A", [], false⟩) ⟨0, 35⟩
      [.branch (.blockElement ⟨some "B", [], false⟩) ⟨6, 30⟩ [paragraph]]]
    let line : Cursor := ⟨16, "      y\n  </B>\n</A>\n".toList⟩
    (parse (CompileOptions.parseOptions {}) source = .ok root ∧ line ∈ (ofText source).lines ∧
      line.isLineBlank = false ∧ (Regions.ofTree root).nonProse.contains 16 = false ∧
      IsContent root ⟨6, 30⟩ ∧ Span.contains ⟨6, 30⟩ 16 = true) ∧
      Prose.baseIndent source ⟨14, 23⟩ = 4 ∧ Innermost root 16 ⟨14, 23⟩ ∧
      ∃ d ∈ (compile {} source).allDocuments, d.language = .markdown ∧
        Prose.Dedented source (Regions.ofTree root).nonProse ⟨d.text, d.mapping⟩ line 4 := by
  intro source paragraph root line
  have hparse : parse (CompileOptions.parseOptions {}) source = .ok root := by decide +kernel
  have hmem : line ∈ (ofText source).lines := by decide +kernel
  have hblank : line.isLineBlank = false := by decide +kernel
  have hbase : Prose.baseIndent source ⟨14, 23⟩ = 4 := by decide +kernel
  have hcode : ∀ s ∈ root.found.code, s.contains 16 = false := by decide +kernel
  have hprose : (Regions.ofTree root).nonProse.contains 16 = false := by
    rw [← Bool.not_eq_true, Regions.Sound.contains_nonProse (sound_of_parse hparse), Regions.ofTree_eq]
    rintro (ho | ho | ⟨f, hf, -⟩)
    · exact List.not_mem_nil (RangeSet.contains_ofList.mp ho).choose_spec.1
    · obtain ⟨s, hs, hso⟩ := RangeSet.contains_ofList.mp ho
      exact Bool.false_ne_true ((hcode s hs).symm.trans hso)
    · exact List.not_mem_nil hf
  have hcontents : ∀ s, IsContent root s ↔ s ∈ [⟨6, 30⟩, (⟨14, 23⟩ : Span)] := fun s => by
    obtain ⟨-, -, -, hplaced⟩ := parse_ok hparse
    rw [← mem_content_ofTree hplaced, Regions.ofTree_eq, RangeSet.mem_ranges_ofList]
    rfl
  have houter : IsContent root ⟨6, 30⟩ := (hcontents _).mpr (by simp)
  have hinner : IsContent root ⟨14, 23⟩ := (hcontents _).mpr (by simp)
  obtain ⟨⟨d, hd, hlanguage⟩, hdrops⟩ := prose_drops_base hparse
  obtain ⟨s, hs, hdedented⟩ := hdrops d hd hlanguage line hmem hblank hprose ⟨_, houter, by decide⟩
  -- The outer content holds the line too, but does not stand in the inner one.
  obtain rfl | rfl : s = ⟨6, 30⟩ ∨ s = ⟨14, 23⟩ := by simpa using (hcontents s).mp hs.isContent
  · exact absurd (hs.within _ hinner (by decide)).1 (by decide)
  · exact ⟨⟨hparse, hmem, hblank, hprose, houter, by decide⟩, hbase, hs, d, hd, hlanguage, hbase ▸ hdedented⟩

end Mdx

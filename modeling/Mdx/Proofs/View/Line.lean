/-
The prose view keeps the lines of its source: it has as many of them, and a byte
that is mapped is on the same line in both texts.

Line feeds are counted along the pieces of the view (`InStep`): a copied span
starts behind as many line feeds in the source as in the view. The pieces of one
line are in step, since neither a placeholder nor a part of the line has a line
feed, and the piece behind them is the line feed itself, copied or written.
-/
import Mdx.Proofs.View.Faithful

namespace Mdx

open Cursor

/-- The line feeds in the first `offset` bytes of a text. -/
def feedsBefore (cs : List Char) (offset : Nat) : Nat := (takeBytes cs offset).count '\n'

/-- The text has as many lines as the source, and a byte that is mapped is on the same line in both. -/
structure Mapping.KeepsLines (source text : List Char) (m : Mapping) : Prop where
  count_eq : text.count '\n' = source.count '\n'
  line_eq : ∀ g s, m.toSource g = some s → feedsBefore text g = feedsBefore source s

/-! ## Counting line feeds -/

section Count

variable {cs : List Char} {c d : Cursor} {t : List Char}

theorem takeBytes_append_add (a b : List Char) (n : Nat) :
    takeBytes (a ++ b) (byteLength a + n) = a ++ takeBytes b n := by
  induction a with
  | nil => simp
  | cons c a ih =>
    have hpos := c.utf8Size_pos
    obtain ⟨m, hm⟩ : ∃ m, byteLength (c :: a) + n = m + 1 := ⟨byteLength (c :: a) + n - 1, by simp; omega⟩
    have hrest : m + 1 - c.utf8Size = byteLength a + n := by
      rw [byteLength_cons] at hm
      omega
    rw [hm, List.cons_append, takeBytes, hrest, ih, List.cons_append]
    omega

theorem takeBytes_takeBytes (cs : List Char) {m n : Nat} (h : m ≤ n) :
    takeBytes (takeBytes cs n) m = takeBytes cs m := by
  induction cs generalizing m n with
  | nil => cases m <;> cases n <;> rfl
  | cons c cs ih =>
    cases m with
    | zero => simp
    | succ m =>
      cases n with
      | zero => omega
      | succ n => simp [takeBytes, ih (Nat.sub_le_sub_right h c.utf8Size)]

/-- Going on counts the line feeds on the way. -/
theorem feedsBefore_path (hc : c.On cs) (h : c.Path t d) :
    feedsBefore cs d.offset = feedsBefore cs c.offset + t.count '\n' := by
  obtain ⟨before, hb⟩ := hc
  have hwhole := hb.trans h
  have hat : ∀ {u : List Char} {e : Cursor}, (ofText cs).Path u e → takeBytes cs e.offset = u := by
    intro u e hu
    have := hu.upTo
    simpa [upTo, ofText] using this
  rw [feedsBefore, feedsBefore, hat hwhole, hat hb, List.count_append]

/-- The line feeds before a byte of a span are those before the span and those in it before the
byte. -/
theorem feedsBefore_add {s : Span} (h : s.InText cs) {i : Nat} (hi : i ≤ s.length) :
    feedsBefore cs (s.start + i) = feedsBefore cs s.start + (takeBytes (slice cs s) i).count '\n' := by
  obtain ⟨a, b, hcs, hstart⟩ := isBoundary_iff.mp h.startsBetween
  rw [slice, takeBytes_takeBytes _ hi]
  subst hcs
  rw [← hstart, dropBytes_append, feedsBefore, feedsBefore, takeBytes_append_add, takeBytes_append,
    List.count_append]

end Count

/-! ## Pieces in step with their source -/

/-- With `n` line feeds before the pieces and `m` behind them, each copied span starts behind as many
line feeds in the source as in the text of the pieces. -/
inductive InStep (source : List Char) : (n : Nat) → List Piece → (m : Nat) → Prop
  | nil {n : Nat} : InStep source n [] n
  | literal {n m : Nat} {t : List Char} {ps : List Piece} :
    InStep source (n + t.count '\n') ps m → InStep source n (.literal t :: ps) m
  | copied {n m : Nat} {s : Span} {ps : List Piece} : feedsBefore source s.start = n →
    InStep source (n + (slice source s).count '\n') ps m → InStep source n (.copied s :: ps) m

section InStep

variable {source : List Char} {k n m : Nat} {ps qs : List Piece}

theorem InStep.append (h : InStep source k ps n) (h' : InStep source n qs m) :
    InStep source k (ps ++ qs) m := by
  induction h with
  | nil => exact h'
  | literal _ ih => exact .literal (ih h')
  | copied hs _ ih => exact .copied hs (ih h')

theorem InStep.count_text (h : InStep source n ps m) :
    n + (ps.flatMap (Piece.text source)).count '\n' = m := by
  induction h with
  | nil => simp
  | literal _ ih =>
    rw [List.flatMap_cons, List.count_append, ← ih, Piece.text, Nat.add_assoc]
  | copied _ _ ih =>
    rw [List.flatMap_cons, List.count_append, ← ih, Piece.text, Nat.add_assoc]

/-- The entries of pieces that stand behind `before` start on the same line in both texts. -/
theorem InStep.entries (before : List Char) (h : InStep source (before.count '\n') ps m) :
    ∀ e ∈ entriesFrom source (byteLength before) ps,
      feedsBefore (before ++ ps.flatMap (Piece.text source)) e.generated = feedsBefore source e.source := by
  induction ps generalizing before with
  | nil => simp [entriesFrom]
  | cons p ps ih =>
    have later : InStep source ((before ++ p.text source).count '\n') ps m →
        ∀ e ∈ entriesFrom source (byteLength before + byteLength (p.text source)) ps,
          feedsBefore (before ++ (p :: ps).flatMap (Piece.text source)) e.generated =
            feedsBefore source e.source := by
      intro hps
      have := ih _ hps
      rwa [byteLength_append, List.append_assoc] at this
    cases h with
    | literal hps => exact later (by rwa [List.count_append])
    | copied hs hps =>
      rw [entriesFrom_copied]
      refine List.forall_mem_cons.mpr ⟨?_, later (by rwa [List.count_append])⟩
      rw [feedsBefore, takeBytes_append, hs]

/-- What is made of pieces in step with their source keeps its lines. -/
theorem keepsLines_ofPieces (hin : ∀ s ∈ copiedSpans ps, s.InText source)
    (hdisjoint : (copiedSpans ps).Pairwise Span.Disjoint) (h : InStep source 0 ps (source.count '\n')) :
    (GeneratedText.ofPieces source ps).mapping.KeepsLines source (GeneratedText.ofPieces source ps).text where
  count_eq := by
    have := h.count_text
    rwa [Nat.zero_add] at this
  line_eq := by
    intro g s hg
    rw [Mapping.toSource_eq_some_iff (wellFormed_ofPieces hin hdisjoint)] at hg
    obtain ⟨e, he, i, hi, rfl, rfl⟩ := Mapping.relates_ofEntries.mp hg
    have hcopies := copies_entriesFrom [] hin e he
    have hstart := h.entries [] e he
    have hlength : e.sourceSpan.length = e.length ∧ e.generatedSpan.length = e.length := by
      simp [Entry.sourceSpan, Entry.generatedSpan, Span.ofLength, Span.length]
    have hsource := feedsBefore_add hcopies.inSource (i := i) (by omega)
    have htext := feedsBefore_add hcopies.inText (i := i) (by omega)
    rw [hcopies.slice_eq] at htext
    calc feedsBefore (GeneratedText.ofPieces source ps).text (e.generated + i)
        = feedsBefore (GeneratedText.ofPieces source ps).text e.generated +
            (takeBytes (slice source e.sourceSpan) i).count '\n' := htext
      _ = feedsBefore source e.source + (takeBytes (slice source e.sourceSpan) i).count '\n' :=
          congrArg (· + _) hstart
      _ = feedsBefore source (e.source + i) := hsource.symm

end InStep

/-! ## The prose view -/

namespace Prose

variable {source : List Char} {hidden : List Span}

theorem literal_notMem_prosePieces (t : List Char) (indent pos stop : Nat) (rest : List Char) :
    Piece.literal t ∉ (linePieces.prosePieces indent pos stop rest).1 := by
  simp only [linePieces.prosePieces]
  split <;> simp

/-- All that a line writes of its own are placeholders. -/
theorem eq_placeholder_of_mem_linePieces {indent pos stop : Nat} {rest t : List Char} {spans : List Span}
    (h : Piece.literal t ∈ linePieces indent pos stop rest spans) : t = placeholder.toList := by
  induction spans generalizing indent pos rest with
  | nil => exact absurd h (literal_notMem_prosePieces t _ _ _ _)
  | cons s spans ih =>
    simp only [linePieces] at h
    split at h
    · rcases List.mem_append.mp h with h | h
      · exact absurd h (literal_notMem_prosePieces t _ _ _ _)
      · exact ih h
    · rcases List.mem_append.mp h with h | h
      · exact absurd h (literal_notMem_prosePieces t _ _ _ _)
      · rcases List.mem_cons.mp h with h | h
        · exact Piece.literal.inj h
        · exact ih h

/-- Pieces without a line feed that copy only from one line are in step with it. -/
theorem inStep_of_line {c e : Cursor} {line : List Char} {ps : List Piece} (hc : c.On source)
    (hline : c.Path line e) (hfeed : '\n' ∉ line) (hliteral : ∀ t, .literal t ∈ ps → '\n' ∉ t)
    (hcopied : ∀ s ∈ copiedSpans ps, s.InText source ∧ c.offset ≤ s.start ∧ s.stop ≤ e.offset) :
    InStep source (feedsBefore source c.offset) ps (feedsBefore source c.offset) := by
  induction ps with
  | nil => exact .nil
  | cons p ps ih =>
    cases p with
    | literal t =>
      have hlater := ih (fun u hu => hliteral u (List.mem_cons_of_mem _ hu)) hcopied
      refine .literal ?_
      rwa [List.count_eq_zero.mpr (hliteral t List.mem_cons_self)]
    | copied s =>
      rw [copiedSpans_copied, List.forall_mem_cons] at hcopied
      obtain ⟨⟨hs, hlo, hhi⟩, hcopied⟩ := hcopied
      have hlater := ih (fun u hu => hliteral u (List.mem_cons_of_mem _ hu)) hcopied
      obtain ⟨a, b, t, ha, ht, rfl⟩ := hs.path
      obtain ⟨u, hu⟩ := hc.reaches_of_le ha hlo
      obtain ⟨v, rfl, -⟩ := (hu.trans ht).split hline hhi
      simp only [List.mem_append, not_or] at hfeed
      refine .copied ?_ ?_
      · rw [spanTo, feedsBefore_path hc hu, List.count_eq_zero.mpr hfeed.1.1, Nat.add_zero]
      · rwa [ha.slice ht, List.count_eq_zero.mpr hfeed.1.2]

/-- The line feed behind a line is one in both texts. -/
theorem inStep_feedOf {c : Cursor} (hc : c.On source) (hfeed : c.lineEnd.Path ['\n'] c.nextLine) :
    InStep source (feedsBefore source c.lineEnd.offset) [feedOf hidden c]
      (feedsBefore source c.nextLine.offset) := by
  have he := hc.reaches (path_lineEnd c).reaches
  have hcount : feedsBefore source c.nextLine.offset = feedsBefore source c.lineEnd.offset + 1 :=
    feedsBefore_path he hfeed
  rw [hcount, feedOf]
  split
  · exact .literal .nil
  · refine .copied rfl ?_
    rw [he.slice hfeed]
    exact .nil

theorem inStep_lineOf (hhidden : ∀ h ∈ hidden, h.InText source)
    (hapart : hidden.Pairwise fun s t => s.stop < t.start) (bases : List (Span × Nat)) {c : Cursor}
    (hc : c.On source) : InStep source (feedsBefore source c.offset) (lineOf hidden bases c)
      (feedsBefore source c.lineEnd.offset) := by
  have hend := path_lineEnd c
  have hfeed : '\n' ∉ c.line := fun hmem => absurd (forall_mem_takeWhile '\n' hmem) (by decide)
  have hshown := shown_lineOf hhidden hapart bases hc
  rw [feedsBefore_path hc hend, List.count_eq_zero.mpr hfeed]
  refine inStep_of_line hc hend hfeed (fun t ht => ?_) fun s hs => ⟨hshown.inText s hs, hshown.within s hs⟩
  rw [eq_placeholder_of_mem_linePieces ht]
  decide

theorem inStep_linesPieces (hhidden : ∀ h ∈ hidden, h.InText source)
    (hapart : hidden.Pairwise fun s t => s.stop < t.start) (bases : List (Span × Nat)) (c : Cursor)
    (hc : c.On source) : InStep source (feedsBefore source c.offset)
      (linesPieces hidden bases c.offset (splitLines c.rest)) (feedsBefore source (byteLength source)) := by
  revert hc
  refine linesPieces_induction (motive := fun c ps => c.On source →
    InStep source (feedsBefore source c.offset) ps (feedsBefore source (byteLength source))) ?_ ?_ c
  · intro c hlast hc
    have hline := inStep_lineOf hhidden hapart bases hc
    rwa [lineEnd_eq_ofEnd hc hlast] at hline
  · intro c ps hfeed ih hc
    have hnext := hc.reaches ((path_lineEnd c).trans hfeed).reaches
    exact (inStep_lineOf hhidden hapart bases hc).append ((inStep_feedOf hc hfeed).append (ih hnext))

/-- The prose view keeps lines, whatever of the source it hides. -/
theorem keepsLines_view {nonProse : RangeSet} (hsorted : nonProse.Sorted)
    (hin : ∀ s ∈ nonProse.ranges, s.InText source) (content : RangeSet) :
    (view source nonProse content).mapping.KeepsLines source (view source nonProse content).text := by
  have hmerged := RangeSet.inText_merged hin
  have hapart := (RangeSet.separated_merged hsorted).apart
  have hshown := shown_pieces hmerged hapart content
  refine keepsLines_ofPieces hshown.inText hshown.pairwise ?_
  have hstep := inStep_linesPieces hmerged hapart
    (content.ranges.map fun s => (s, baseIndent source s)) (ofText source) (on_ofText source)
  have hend : feedsBefore source (byteLength source) = source.count '\n' := by
    have := feedsBefore_path (on_ofText source) (path_ofEnd source)
    simpa [ofEnd, ofText, feedsBefore] using this
  rw [hend] at hstep
  simpa [ofText, feedsBefore, pieces] using hstep

end Prose

theorem keepsLines_empty (source : List Char) : Mapping.empty.KeepsLines source source where
  count_eq := rfl
  line_eq := by simp [Mapping.toSource, Mapping.empty, Mapping.carry]

/-- **The prose view keeps lines.** Whatever spans of the source it hides and whatever spans are the
contents of elements, it has the line feeds of the source, and a byte that is mapped has as many of
them before it as in the source. So it is for the prose view of every document that is compiled. -/
theorem prose_keeps_lines (source : List Char) :
    (∀ hidden contents : List Span, (∀ s ∈ hidden, s.InText source) → (∀ s ∈ contents, s.InText source) →
      let view := Prose.view source (.ofList hidden) (.ofList contents)
      view.mapping.KeepsLines source view.text) ∧
    ∀ (options : CompileOptions), ∀ d ∈ (compile options source).allDocuments, d.language = .markdown →
      d.mapping.KeepsLines source d.text := by
  refine ⟨fun hidden contents hin _ => ?_, fun options d hd hlanguage => ?_⟩
  · exact Prose.keepsLines_view (RangeSet.sorted_ofList hidden)
      (fun s hs => hin s (RangeSet.mem_ranges_ofList.mp hs)) _
  · unfold compile at hd
    split at hd
    · next root hparse =>
      have hsound := sound_of_parse hparse
      simp only [Compilation.allDocuments, viewsOf, DocumentGroup.all, List.flatMap_cons,
        List.flatMap_nil, List.append_nil, List.mem_append, List.mem_cons, List.not_mem_nil, or_false,
        List.mem_map] at hd
      rcases hd with rfl | rfl | ⟨f, -, rfl⟩
      · cases hlanguage
      · exact Prose.keepsLines_view (Regions.nonProse_sorted _) hsound.nonProse_inText _
      · cases f with
        | mk dialect => cases dialect <;> cases hlanguage
    · simp only [Compilation.allDocuments, fallbackViews, DocumentGroup.all, List.flatMap_cons,
        List.flatMap_nil, List.append_nil, List.mem_append, List.mem_singleton] at hd
      rcases hd with rfl | rfl
      · cases hlanguage
      · exact keepsLines_empty source

/-- An expression over two lines, and spans that overlap there. -/
theorem prose_keeps_lines_expression :
    let source := "é \x7bb +\n  c\x7d\n  d\n".toList
    let text := "é <!---->\n<!---->\n  d\n".toList
    let mapping : Mapping := ⟨[⟨0, 0, 3⟩, ⟨12, 18, 5⟩]⟩
    (⟨"md", .markdown, text, mapping⟩ ∈ (compile {} source).allDocuments ∧
      mapping.KeepsLines source text) ∧
      let view := Prose.view source (.ofList [⟨3, 12⟩, ⟨8, 15⟩]) (.ofList [⟨13, 16⟩])
      view.mapping.KeepsLines source view.text := by
  intro source text mapping
  have hmem : ⟨"md", .markdown, text, mapping⟩ ∈ (compile {} source).allDocuments := by decide +kernel
  have hhidden : ∀ s ∈ [⟨3, 12⟩, ⟨8, 15⟩], Span.InText source s := by
    simp only [List.forall_mem_cons]
    exact ⟨⟨by decide, by decide, by decide, by decide⟩,
      ⟨by decide, by decide, by decide, by decide⟩, by simp⟩
  have hcontent : ∀ s ∈ [⟨13, 16⟩], Span.InText source s :=
    List.forall_mem_singleton.mpr ⟨by decide, by decide, by decide, by decide⟩
  have h := prose_keeps_lines source
  exact ⟨⟨hmem, h.2 {} _ hmem rfl⟩, h.1 _ _ hhidden hcontent⟩

end Mdx

/-
Reading a document comes to an end on every text. Lines are read in rounds, and a
round reads on only at the start of a later line or at the end of the text: each
construct takes whole lines (`TakesLines`), also one whose end was trimmed back
before lines that were looked at already.
-/
import Mdx.Proofs.Blame.Document
import Mdx.Proofs.Progress.Inline
import Mdx.Proofs.Text.Span

namespace Mdx

open Cursor

/-! ## Starts of lines -/

/-- A line of the text starts at the place, or the text ends there. -/
structure Cursor.StartsLine (cs : List Char) (c : Cursor) : Prop where
  on : c.On cs
  start : c.offset = 0 ∨ precededBy cs c.offset '\n' = true ∨ c.offset = byteLength cs

/-- From the line at `line` reading goes on at `next`, which is behind it and in the text, where a
line starts or the text ends. -/
structure Cursor.GoesOn (cs : List Char) (line next : Cursor) : Prop where
  behind : line.offset < next.offset
  inText : next.offset ≤ byteLength cs
  startsLine : next.StartsLine cs

namespace Cursor

variable {cs : List Char} {c d next : Cursor}

theorem startsLine_ofText (cs : List Char) : (ofText cs).StartsLine cs := ⟨on_ofText cs, .inl rfl⟩

theorem startsLine_nextLine (hc : c.On cs) : c.nextLine.StartsLine cs := by
  have hon := hc.reaches (reaches_nextLine c)
  have hend := hc.reaches (path_lineEnd c).reaches
  rcases isLineEnd_iff.mp (isLineEnd_lineEnd c) with hnil | ⟨rest, hfeed⟩
  · have hnone : c.nextLine.rest = [] := by
      rw [nextLine, rest_drop, hnil]
      rfl
    have hlast := hon.path_ofEnd.offset
    rw [hnone] at hlast
    exact ⟨hon, .inr (.inr hlast.symm)⟩
  · have hoffset : c.nextLine.offset = c.lineEnd.offset + 1 := (path_cons hfeed).offset
    have hchar := charAt?_offset hend hfeed
    refine ⟨hon, .inr (.inl ?_)⟩
    rw [precededBy, hoffset, Nat.add_sub_cancel, hchar]
    simp

theorem rest_ne_nil_of_isLineEnd (h : c.isLineEnd = false) : c.rest ≠ [] := by
  intro hnil
  rw [isLineEnd_iff.mpr (.inl hnil)] at h
  cases h

theorem Reaches.rest_ne_nil (h : c.Reaches d) (hd : d.rest ≠ []) : c.rest ≠ [] := by
  have hle := h.length_le
  have hpos := List.length_pos_iff.mpr hd
  exact List.length_pos_iff.mp (by omega)

theorem LineBehind.reaches (h : c.LineBehind next) : c.Reaches next := by
  obtain ⟨x, hx, rfl⟩ := h
  exact hx.trans (reaches_nextLine x)

theorem LineBehind.startsLine (hc : c.On cs) (h : c.LineBehind next) : next.StartsLine cs := by
  obtain ⟨x, hx, rfl⟩ := h
  exact startsLine_nextLine (hc.reaches hx)

theorem LineBehind.before (hne : c.rest ≠ []) (h : c.LineBehind next) : c.Before next := by
  obtain ⟨x, hx, rfl⟩ := h
  exact (hx.trans (reaches_nextLine x)).before_of_length (length_nextLine_lt_of_reaches hne hx)

theorem LineBehind.after (hcd : c.Reaches d) (h : d.LineBehind next) : c.LineBehind next := by
  obtain ⟨x, hx, rfl⟩ := h
  exact ⟨x, hcd.trans hx, rfl⟩

theorem LineBehind.goesOn (hc : c.On cs) (hne : c.rest ≠ []) (h : c.LineBehind next) :
    GoesOn cs c next :=
  ⟨(h.before hne).lt, (hc.reaches h.reaches).le, h.startsLine hc⟩

end Cursor

/-! ## Lines -/

/-- Where a reader of lines stands. -/
structure FlowState where
  container : Option Tag
  line : Cursor

namespace FlowState

/-- The state is at the start of a line, or at the end of the text. -/
def Valid (cs : List Char) (s : FlowState) : Prop := s.line.StartsLine cs

/-- The line is further on, in whatever container. -/
def Later (s t : FlowState) : Prop := s.line.Before t.line

/-- The place behind the tag that closed the container is reached from the line. -/
def Gives (s : FlowState) (found : List Node × Option (Tag × Cursor)) : Prop :=
  ∀ closing after, found.2 = some (closing, after) → s.line.Reaches after

/-- A round of reading lines at a state. -/
def round (math : Bool) (read : FlowState → Except ParseError (List Node × Option (Tag × Cursor)))
    (s : FlowState) : Except ParseError (List Node × Option (Tag × Cursor)) :=
  flowRound math (fun container line => read ⟨container, line⟩) s.container s.line

/-- The lines at a state, read in `fuel` rounds. -/
def run (math : Bool) (fuel : Nat) (s : FlowState) :
    Except ParseError (List Node × Option (Tag × Cursor)) := readFlow math fuel s.container s.line

end FlowState

theorem flowRound_advances (cs : List Char) (math : Bool) :
    Advances (FlowState.Valid cs) FlowState.Later FlowState.Gives (FlowState.round math) := by
  intro read read' s hs hlater
  have hline := hs.on
  obtain ⟨indent, hindent, -⟩ := path_skipIndent s.line
  have hstart := hline.reaches hindent.reaches
  simp only [FlowState.round, flowRound]
  split
  · cases s.container with
    | none => exact .ok (by simp [FlowState.Gives])
    | some tag => exact .error
  next hne =>
  have hne : s.line.rest ≠ [] := fun hnil => hne (List.isEmpty_iff.mpr hnil)
  have onward : ∀ {container : Option Tag} {next : Cursor}, s.line.LineBehind next →
      Alike s.Gives (read ⟨container, next⟩) (read' ⟨container, next⟩) := by
    intro container next hnext
    refine (hlater ⟨container, next⟩ (hnext.startsLine hline) (hnext.before hne)).mono ?_
    exact fun found hfound closing after hclosing => hnext.reaches.trans (hfound closing after hclosing)
  split
  · exact onward ⟨_, .refl _, rfl⟩
  next hend =>
  have hsne : s.line.skipIndent.rest ≠ [] := fun hnil => hend (isLineEnd_iff.mpr (.inl hnil))
  split
  · refine Alike.bind_same fun found hclosing => .ok ?_
    rintro closing after ⟨⟩
    obtain ⟨tag, -, hread, -, -⟩ := readClosing_ok hclosing
    exact hindent.reaches.trans (Tag.reaches_read hread)
  have proceed : ∀ {n : Node} {next : Cursor}, s.line.LineBehind next → Alike s.Gives
      (read ⟨s.container, next⟩ >>= fun found => pure (n :: found.1, found.2))
      (read' ⟨s.container, next⟩ >>= fun found => pure (n :: found.1, found.2)) :=
    fun hnext => (onward hnext).bind fun _ hfound => .ok hfound
  refine Alike.bind_same fun opening hopening => ?_
  cases openLine_ok hopening hstart hsne with
  | block hn => exact proceed (hn.behind.after hindent.reaches)
  | @element tag next hread =>
    have hnext := hindent.reaches.trans (Tag.reaches_read hread)
    dsimp only
    split
    · exact proceed ⟨next, hnext, rfl⟩
    · refine (onward ⟨next, hnext, rfl⟩).bind fun found hfound => ?_
      obtain ⟨nodes, closing⟩ := found
      -- Without a closing tag, which never happens, the round would read on behind the opening one.
      cases closing with
      | none => exact proceed ⟨next, hnext, rfl⟩
      | some found => exact proceed ⟨found.2, hfound found.1 found.2 rfl, rfl⟩

/-! ## Cuts -/

variable {cs : List Char} {c : Cursor}

/-- The statements of a module block are cut at places in order. -/
theorem reaches_of_mem_zip {stop : Cursor} {starts : List Cursor} (hpair : starts.Pairwise Reaches)
    (hstop : ∀ s ∈ starts, s.Reaches stop) :
    ∀ p ∈ starts.zip ((starts.drop 1).map Cursor.offset ++ [stop.offset]),
      p.1 ∈ starts ∧ ∃ d, p.1.Reaches d ∧ p.2 = d.offset := by
  induction starts with
  | nil => simp
  | cons s starts ih =>
    obtain ⟨hs, hpair⟩ := List.pairwise_cons.mp hpair
    intro p hp
    cases starts with
    | nil =>
      simp only [List.drop_succ_cons, List.drop_nil, List.map_nil, List.nil_append, List.zip_cons_cons,
        List.zip_nil_left, List.mem_singleton] at hp
      subst hp
      exact ⟨by simp, stop, hstop s (by simp), rfl⟩
    | cons r starts =>
      simp only [List.drop_succ_cons, List.drop_zero, List.map_cons, List.cons_append,
        List.zip_cons_cons, List.mem_cons] at hp
      rcases hp with rfl | hp
      · exact ⟨by simp, r, hs r (by simp), rfl⟩
      · obtain ⟨hmem, hcut⟩ := ih hpair (fun x hx => hstop x (List.mem_cons_of_mem _ hx)) p hp
        exact ⟨List.mem_cons_of_mem _ hmem, hcut⟩

theorem inText_moduleParts (hc : c.On cs) :
    ∀ p ∈ moduleParts c (c.trimmedTo (moduleLast c).lineEnd.offset).offset,
      (p.1.spanTo p.2).InText cs := by
  intro p hp
  obtain ⟨hmem, d, hd, hoffset⟩ :=
    reaches_of_mem_zip (moduleStarts_pairwise c) (fun _ => reaches_moduleStop) p hp
  have hstart : c.Reaches p.1 := by
    rcases List.mem_cons.mp hmem with heq | hlater
    · exact heq ▸ .refl _
    · exact (List.pairwise_cons.mp (moduleStarts_pairwise c)).1 _ hlater
  rw [hoffset]
  exact Span.inText_spanTo (hc.reaches hstart) hd

/-- What readers cut out of the text between a place and an offset is the text between two places of
it, in order. All else that they look at stands between places. -/
structure CutsInText (math : Bool) (cs : List Char) : Prop where
  spread : ∀ (c : Cursor) rest close, c.On cs → c.rest = '\x7b' :: rest → Script.closingBrace c = .ok close →
    ((c.drop 1).spanTo close.place.offset).InText cs
  marked : ∀ s, InlineState.Valid cs s → (s.place.spanTo s.stop.offset).InText cs
  paragraph : ∀ container (c : Cursor), c.On cs →
    (c.spanTo (paragraphLast math container c).lineEnd.offset).InText cs
  heading : ∀ depth (c : Cursor), c.On cs → ((headingStart depth c).spanTo
    (max c.trimmedLineEnd.offset (headingStart depth c).offset)).InText cs
  modules : ∀ c : Cursor, c.On cs → (c.spanTo (moduleLast c).lineEnd.offset).InText cs ∧
    (c.spanTo (c.trimmedTo (moduleLast c).lineEnd.offset).offset).InText cs ∧
    ∀ p ∈ moduleParts c (c.trimmedTo (moduleLast c).lineEnd.offset).offset, (p.1.spanTo p.2).InText cs

theorem cutsInText (math : Bool) (cs : List Char) : CutsInText math cs where
  spread := by
    intro c rest close hc hrest hclose
    obtain ⟨body, hbody, -, -⟩ := Script.closingBrace_body hclose hrest
    exact Span.inText_spanTo (hc.reaches (reaches_drop c 1)) hbody.reaches
  marked _ hs := Span.inText_spanTo hs.on_cursor hs.ahead
  paragraph container c hc :=
    Span.inText_spanTo hc ((reaches_paragraphLast math container c).trans (path_lineEnd _).reaches)
  heading := by
    intro depth c hc
    have hstart := reaches_headingStart depth c
    have hend := reaches_trimmedLineEnd c
    rcases Nat.le_total (headingStart depth c).offset c.trimmedLineEnd.offset with hle | hle
    · rw [Nat.max_eq_left hle]
      exact Span.inText_spanTo (hc.reaches hstart) (hstart.of_le hend hle)
    · rw [Nat.max_eq_right hle]
      exact Span.inText_spanTo (hc.reaches hstart) (.refl _)
  modules c hc :=
    ⟨Span.inText_spanTo hc ((reaches_moduleLast (.inl rfl)).trans (path_lineEnd _).reaches),
      Span.inText_spanTo hc (reaches_moduleStop (by simp)), inText_moduleParts hc⟩

/-! ## Documents -/

/-- Every reader of the text comes to an end. Attributes, inline content and lines are read in rounds
that advance; paragraphs and headings start inline content at valid states; and what a line opens is
read up to the start of a later line or the end of the text. -/
structure ReadsThrough (math : Bool) (cs : List Char) : Prop where
  attributes_advance : ∀ lt, Advances (On cs) Before (fun _ _ => True) (Tag.attributesRound lt)
  attributes_end : ∀ lt,
    Ends (On cs) (fun c => c.rest.length) (Tag.attributesRound lt) (Tag.readAttributes lt)
  inline_advance : ∀ scope, Advances (InlineState.Valid cs) InlineState.Later InlineState.Gives
    (InlineState.round math scope)
  inline_end : ∀ scope, Ends (InlineState.Valid cs) (fun s => s.place.rest.length)
    (InlineState.round math scope) (InlineState.run math scope)
  flow_advance : Advances (FlowState.Valid cs) FlowState.Later FlowState.Gives (FlowState.round math)
  flow_end : Ends (FlowState.Valid cs) (fun s => s.line.rest.length) (FlowState.round math)
    (FlowState.run math)
  paragraph_starts : ∀ container (c : Cursor), c.On cs →
    InlineState.Valid cs ⟨none, c, c, paragraphEnd math container c⟩
  heading_starts : ∀ depth (c : Cursor), c.On cs →
    InlineState.Valid cs ⟨none, headingStart depth c, headingStart depth c, headingStop depth c⟩
  blank : ∀ line : Cursor, line.StartsLine cs → line.rest ≠ [] → line.GoesOn cs line.nextLine
  block : ∀ container (line : Cursor) node next, line.StartsLine cs →
    line.skipIndent.isLineEnd = false →
    openLine math container line line.skipIndent = .ok (.block node next) → line.GoesOn cs next
  element : ∀ container (line : Cursor) tag next, line.StartsLine cs →
    line.skipIndent.isLineEnd = false →
    openLine math container line line.skipIndent = .ok (.element tag next) →
      tag.span.start < tag.span.stop ∧ tag.span.stop ≤ next.nextLine.offset ∧
      line.GoesOn cs next.nextLine ∧
      ∀ fuel nodes closing after, next.nextLine.rest.length < fuel →
        readFlow math fuel (some tag) next.nextLine = .ok (nodes, some (closing, after)) →
        line.GoesOn cs after.nextLine

theorem readsThrough (math : Bool) (cs : List Char) : ReadsThrough math cs where
  attributes_advance := Tag.attributesRound_advances cs
  attributes_end lt := (Tag.attributesRound_advances cs lt).ends Before.length_lt fun _ _ => rfl
  inline_advance := inlineRound_advances cs math
  inline_end scope := (inlineRound_advances cs math scope).ends Before.length_lt fun _ _ => rfl
  flow_advance := flowRound_advances cs math
  flow_end := (flowRound_advances cs math).ends Before.length_lt fun _ _ => rfl
  paragraph_starts := by
    intro container c hc
    obtain ⟨hreach, hblank⟩ := paragraphEnd_ok math container c
    exact ⟨hc, .refl c, hreach, fun _ => settled_of_isLineBlank hblank⟩
  heading_starts := by
    intro depth c hc
    have hstart := hc.reaches (reaches_headingStart depth c)
    by_cases hle : (headingStart depth c).offset ≤ c.trimmedLineEnd.offset
    · obtain ⟨hstop, hset, -⟩ := headingStop_of_le hle
      exact ⟨hstart, .refl _, hstop, hset⟩
    · rw [headingStop_of_lt (by omega)]
      exact ⟨hstart, .refl _, .refl _, fun hlt => absurd hlt (Nat.lt_irrefl _)⟩
  blank line hline hne := LineBehind.goesOn hline.on hne ⟨line, .refl line, rfl⟩
  block := by
    intro container line node next hline hend hopen
    obtain ⟨indent, hindent, -⟩ := path_skipIndent line
    have hne := rest_ne_nil_of_isLineEnd hend
    cases openLine_ok hopen (hline.on.reaches hindent.reaches) hne with
    | block hn =>
      exact (hn.behind.after hindent.reaches).goesOn hline.on (hindent.reaches.rest_ne_nil hne)
  element := by
    intro container line tag next hline hend hopen
    obtain ⟨indent, hindent, -⟩ := path_skipIndent line
    have hne := rest_ne_nil_of_isLineEnd hend
    cases openLine_ok hopen (hline.on.reaches hindent.reaches) hne with
    | element hread =>
      obtain ⟨t, ht, hp⟩ := Tag.path_read hread hne
      have hline_ne := hindent.reaches.rest_ne_nil hne
      have hcontent : line.LineBehind next.nextLine := ⟨next, hindent.reaches.trans hp.reaches, rfl⟩
      rw [(Tag.read_ok hread).2.1]
      refine ⟨hp.lt ht, (reaches_nextLine next).le, hcontent.goesOn hline.on hline_ne, ?_⟩
      intro fuel nodes closing after hfuel hflow
      have hvalid : FlowState.Valid cs ⟨some tag, next.nextLine⟩ := hcontent.startsLine hline.on
      have hrun : FlowState.run math fuel ⟨some tag, next.nextLine⟩ = .ok (nodes, some (closing, after)) :=
        hflow
      have hgives := (flowRound_advances cs math).gives_of_run Before.length_lt (fun _ _ => rfl) hvalid
        hfuel hrun
      have hafter := hcontent.reaches.trans (hgives closing after rfl)
      exact LineBehind.goesOn hline.on hline_ne ⟨after, hafter, rfl⟩

/-- **Every text is read to its end.** The readers of a document come to an end on every text, cut it
only between its characters, and go on behind each construct at a later line. So what a document
parses to does not hang on how many rounds are granted, and an error is one at a part of the text. -/
theorem parse_total (options : ParseOptions) (cs : List Char) :
    ReadsThrough options.math cs ∧ CutsInText options.math cs ∧
      (∀ node next, readFrontmatter? options.dialects (ofText cs) = some (node, next) →
        (ofText cs).GoesOn cs next) ∧
      (∀ front flow, readFront options.dialects (ofText cs) = (front, flow) → flow.StartsLine cs ∧
        ∀ fuel, flow.rest.length < fuel → parse options cs = do
          let (nodes, _) ← readFlow options.math fuel none flow
          return .branch .root ⟨0, byteLength cs⟩ (front ++ nodes)) ∧
      ∀ e, parse options cs = .error e → e.span.InText cs := by
  have hreads := readsThrough options.math cs
  have hfront : ∀ node next, readFrontmatter? options.dialects (ofText cs) = some (node, next) →
      (ofText cs).GoesOn cs next := by
    intro node next hfound
    have hn := readFrontmatter?_ok hfound (on_ofText cs)
    have hne : (ofText cs).rest ≠ [] := List.length_pos_iff.mp (Nat.zero_lt_of_lt hn.shorter)
    exact hn.behind.goesOn (on_ofText cs) hne
  refine ⟨hreads, cutsInText options.math cs, hfront, fun front flow hread => ?_, fun e he => ?_⟩
  · have hflow : flow.StartsLine cs := by
      unfold readFront at hread
      split at hread
      · next hfound =>
        cases hread
        exact (hfront _ _ hfound).startsLine
      · cases hread
        exact startsLine_ofText cs
    refine ⟨hflow, fun fuel hfuel => ?_⟩
    have henough : readFlow options.math (flow.rest.length + 1) none flow =
        readFlow options.math fuel none flow :=
      hreads.flow_end.enough ⟨none, flow⟩ hflow _ fuel (Nat.lt_succ_self _) hfuel
    rw [parse, hread, ← henough]
  · obtain ⟨a, b, t, ha, hab, -, hspan, -⟩ := parse_error_blamed he
    rw [hspan]
    exact Span.inText_spanTo ha hab.reaches

/-- An element below a heading: reading goes on in the element and behind it. -/
theorem parse_total_element : ∃ tag next,
    openLine false none ⟨5, "<B>\n</B>\n".toList⟩ (skipIndent ⟨5, "<B>\n</B>\n".toList⟩) =
        .ok (.element tag next) ∧
      tag.span.start < tag.span.stop ∧ tag.span.stop ≤ next.nextLine.offset ∧
      GoesOn "# é\n<B>\n</B>\n".toList ⟨5, "<B>\n</B>\n".toList⟩ next.nextLine := by
  obtain ⟨tag, next, hopen⟩ : ∃ tag next,
      openLine false none ⟨5, "<B>\n</B>\n".toList⟩ (skipIndent ⟨5, "<B>\n</B>\n".toList⟩) =
        .ok (.element tag next) := ⟨_, _, rfl⟩
  have hline : StartsLine "# é\n<B>\n</B>\n".toList ⟨5, "<B>\n</B>\n".toList⟩ :=
    ⟨⟨"# é\n".toList, by decide, by decide⟩, .inr (.inl (by decide))⟩
  have hreads : ReadsThrough false "# é\n<B>\n</B>\n".toList := (parse_total .plain _).1
  obtain ⟨htag, hcontent, hgoes, -⟩ := hreads.element none _ tag next hline (by decide) hopen
  exact ⟨tag, next, hopen, htag, hcontent, hgoes⟩

end Mdx

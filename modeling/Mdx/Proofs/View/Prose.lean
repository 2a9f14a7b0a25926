/-
What the prose view copies. Along the text, a part of it is copied, hidden or
blank: `Shown` says of the spans that are copied between two places that they
hold no hidden byte and leave out no other character that shows. It is put
together part by part (`Shown.append`): a run of prose loses at most its indent,
a run of hidden content is left out whole, and the end of a line is blank.

How the view is written is told once, between places and without the arithmetic
of offsets: `WritesRun` for a run of prose, `WritesLine` for a line with what is
hidden on it, and `linesPieces_induction` for the lines of a text. All that is
proved of the view follows from these.
-/
import Mdx.Proofs.Generated
import Mdx.Proofs.Text.Line
import Mdx.Prose

namespace Mdx

open Cursor

/-- The spans copied between two places: they stand there in order, hold no hidden byte, and leave
out no character that shows and is not hidden. -/
structure Shown (source : List Char) (hidden : List Span) (c d : Cursor) (copied : List Span) : Prop where
  inText : ∀ s ∈ copied, s.InText source
  within : ∀ s ∈ copied, c.offset ≤ s.start ∧ s.stop ≤ d.offset
  ascending : copied.Pairwise fun s t => s.stop ≤ t.start
  avoids : ∀ s ∈ copied, ∀ h ∈ hidden, s.Disjoint h
  keeps : ∀ o ch, ShowsAt source o ch → c.offset ≤ o → o < d.offset →
    (∀ h ∈ hidden, h.contains o = false) → ∃ s ∈ copied, s.holdsChar o ch = true

/-- No hidden byte is between the two offsets. -/
def Free (hidden : List Span) (lo hi : Nat) : Prop :=
  ∀ h ∈ hidden, ∀ o, lo ≤ o → o < hi → h.contains o = false

namespace Shown

variable {source : List Char} {hidden : List Span} {c d e : Cursor} {copied more : List Span}

theorem append (h : Shown source hidden c d copied) (h' : Shown source hidden d e more)
    (hcd : c.offset ≤ d.offset) (hde : d.offset ≤ e.offset) : Shown source hidden c e (copied ++ more) where
  inText := List.forall_mem_append.mpr ⟨h.inText, h'.inText⟩
  within := by
    refine List.forall_mem_append.mpr ⟨fun s hs => ?_, fun s hs => ?_⟩
    · have := h.within s hs
      omega
    · have := h'.within s hs
      omega
  ascending := by
    refine List.pairwise_append.mpr ⟨h.ascending, h'.ascending, fun s hs t ht => ?_⟩
    have := (h.within s hs).2
    have := (h'.within t ht).1
    omega
  avoids := List.forall_mem_append.mpr ⟨h.avoids, h'.avoids⟩
  keeps := by
    intro o ch hshows hlo hhi hfree
    by_cases ho : o < d.offset
    · obtain ⟨s, hs, hholds⟩ := h.keeps o ch hshows hlo ho hfree
      exact ⟨s, List.mem_append_left _ hs, hholds⟩
    · obtain ⟨s, hs, hholds⟩ := h'.keeps o ch hshows (by omega) hhi hfree
      exact ⟨s, List.mem_append_right _ hs, hholds⟩

/-- Nothing is copied where nothing has to be. -/
theorem none (h : ∀ o ch, ShowsAt source o ch → c.offset ≤ o → o < d.offset →
    ∃ s ∈ hidden, s.contains o = true) : Shown source hidden c d [] := by
  refine ⟨by simp, by simp, .nil, by simp, fun o ch hshows hlo hhi hfree => ?_⟩
  obtain ⟨s, hs, hso⟩ := h o ch hshows hlo hhi
  rw [hfree s hs] at hso
  cases hso

/-- Nothing is copied of what is blank. -/
theorem blank {t : List Char} (hc : c.On source) (ht : c.Path t d) (hblank : ∀ ch ∈ t, isBlank ch = true) :
    Shown source hidden c d [] := by
  refine none fun o ch hshows hlo hhi => ?_
  obtain ⟨x, hx, rfl, rest, hrest⟩ := on_of_charAt? hshows.stands
  obtain ⟨u, hu⟩ := hc.reaches_of_le hx hlo
  obtain ⟨v, rfl, hv⟩ := hu.split ht (Nat.le_of_lt hhi)
  have := hblank ch (List.mem_append_right _ (hv.head_mem hrest hhi).1)
  rw [hshows.shows] at this
  cases this

/-- Nothing is copied of what is hidden. -/
theorem inHidden {s : Span} (hs : s ∈ hidden) (hlo : s.start ≤ c.offset) (hhi : d.offset ≤ s.stop) :
    Shown source hidden c d [] :=
  none fun _ _ _ hc hd => ⟨s, hs, Span.contains_iff.mpr ⟨by omega, by omega⟩⟩

/-- All is copied between two places with no hidden byte between them. -/
theorem all (hc : c.On source) (hcd : c.Reaches d)
    (hfree : Free hidden c.offset d.offset) : Shown source hidden c d [c.spanTo d.offset] := by
  refine ⟨by simpa using Span.inText_spanTo hc hcd, by simp [spanTo], by simp, ?_, ?_⟩
  · intro s hs h hh o ho
    rw [List.mem_singleton.mp hs, Span.contains_iff] at ho
    have := hfree h hh o ho.1.1 ho.1.2
    rw [ho.2] at this
    cases this
  · intro o ch hshows hlo hhi _
    obtain ⟨x, hx, rfl, rest, hrest⟩ := on_of_charAt? hshows.stands
    obtain ⟨v, hv⟩ := hx.reaches_of_le (hc.reaches hcd) (Nat.le_of_lt hhi)
    exact ⟨_, List.mem_singleton_self _, Span.holdsChar_iff.mpr ⟨hlo, (hv.head_mem hrest hhi).2⟩⟩

end Shown

namespace Prose

/-! ## Runs of prose -/

theorem utf8Size_of_isIndent {c : Char} (h : isIndent c = true) : c.utf8Size = 1 := by
  simp only [isIndent, Bool.or_eq_true, beq_iff_eq] at h
  rcases h with rfl | rfl <;> decide

theorem byteLength_of_isIndent {cs : List Char} (h : ∀ c ∈ cs, isIndent c = true) :
    byteLength cs = cs.length := by
  induction cs with
  | nil => rfl
  | cons c cs ih =>
    rw [List.forall_mem_cons] at h
    rw [byteLength_cons, utf8Size_of_isIndent h.1, ih h.2, List.length_cons]
    omega

/-- The indent that is dropped is the front of the text. -/
theorem split_indent (text : List Char) (n : Nat) : ∃ front tail, text = front ++ tail ∧
    (∀ c ∈ front, isIndent c = true) ∧ front.length = indentOf (text.take n) ∧ front.length ≤ n := by
  have hprefix := List.takeWhile_prefix (l := text.take n) isIndent
  obtain ⟨tail, htail⟩ := hprefix.trans (List.take_prefix n text)
  have hlength := Nat.le_trans hprefix.length_le (List.length_take_le n text)
  exact ⟨_, tail, htail.symm, forall_mem_takeWhile, rfl, hlength⟩

/-- How a run of prose from `c` to `d` is written where `indent` is to be dropped: what is behind the
spaces and tabs at its start is copied. Where nothing is behind them, the next run goes on with the
indent that is left. -/
inductive WritesRun (c d : Cursor) (indent : Nat) : List Piece × Nat → Prop
  | copied {m : Cursor} {front : List Char} : c.Path front m → (∀ ch ∈ front, isIndent ch = true) →
    front.length ≤ indent → m.Reaches d → m.offset < d.offset →
    WritesRun c d indent ([.copied (m.spanTo d.offset)], 0)
  | dropped {front : List Char} : c.Path front d → (∀ ch ∈ front, isIndent ch = true) →
    front.length ≤ indent → WritesRun c d indent ([], indent - front.length)

variable {source : List Char} {hidden : List Span}

section Run

variable {c d e : Cursor} {rest : List Char} {indent : Nat} {run : List Piece × Nat}

theorem writesRun_prosePieces (hcd : c.Reaches d) (hrest : c.Path rest e) (hde : d.offset ≤ e.offset)
    (indent : Nat) : WritesRun c d indent (linePieces.prosePieces indent c.offset d.offset rest) := by
  obtain ⟨text, htext⟩ := hcd
  have htake : takeBytes rest (d.offset - c.offset) = text := by
    obtain ⟨v, rfl, -⟩ := htext.split hrest hde
    have : d.offset - c.offset = byteLength text := by have := htext.offset; omega
    rw [this, takeBytes_append]
  obtain ⟨front, tail, rfl, hindent, hlen, hle⟩ := split_indent text indent
  obtain ⟨hfront, htail⟩ := htext.at_length
  have hmid : (c.drop front.length).offset = c.offset + front.length := by
    rw [hfront.offset, byteLength_of_isIndent hindent]
  simp only [linePieces.prosePieces, htake, ← hlen, ← hmid]
  split
  · next hlt => exact .copied hfront hindent hle htail.reaches hlt
  · next hge =>
    -- Only indent is left, so its end is the end of the run.
    have heq : c.drop front.length = d := by
      refine hfront.reaches.eq_of_offset_eq htext.reaches ?_
      have := htail.le
      omega
    exact .dropped (heq ▸ hfront) hindent hle

theorem WritesRun.reaches (h : WritesRun c d indent run) : c.Reaches d := by
  cases h with
  | copied hfront _ _ hm _ => exact hfront.reaches.trans hm
  | dropped hfront _ _ => exact hfront.reaches

theorem WritesRun.shown (h : WritesRun c d indent run) (hc : c.On source)
    (hfree : Free hidden c.offset d.offset) : Shown source hidden c d (copiedSpans run.1) := by
  cases h with
  | @copied m front hfront hindent _ hm _ =>
    have hle := hfront.le
    have hblank : Shown source hidden c m [] :=
      .blank hc hfront fun ch hch => isBlank_of_isIndent (hindent ch hch)
    have hall := Shown.all (hc.reaches hfront.reaches) hm fun h hh o hlo hhi => hfree h hh o (by omega) hhi
    exact hblank.append hall hle hm.le
  | dropped hfront hindent _ => exact .blank hc hfront fun ch hch => isBlank_of_isIndent (hindent ch hch)

end Run

/-! ## Lines -/

/-- The hidden spans that reach into a line between two offsets, in order. -/
structure OnLine (hidden : List Span) (lo hi : Nat) (spans : List Span) : Prop where
  apart : spans.Pairwise fun s t => s.stop < t.start
  mem : ∀ s ∈ spans, s ∈ hidden
  reaches : ∀ s ∈ spans, lo ≤ s.stop ∧ s.start ≤ hi
  complete : ∀ h ∈ hidden, ∀ o, lo ≤ o → o < hi → h.contains o = true → h ∈ spans

section Line

variable {lo hi : Nat} {s : Span} {spans : List Span}

theorem OnLine.free_of_nil (h : OnLine hidden lo hi []) : Free hidden lo hi := by
  intro s hs o hlo hhi
  rw [← Bool.not_eq_true]
  exact fun ho => absurd (h.complete s hs o hlo hhi ho) (by simp)

/-- Nothing is hidden before the first of the spans. -/
theorem OnLine.free_before (h : OnLine hidden lo hi (s :: spans))
    (hordered : ∀ s ∈ hidden, s.start ≤ s.stop) : Free hidden lo (max lo s.start) := by
  intro t ht o hlo hmax
  rw [← Bool.not_eq_true]
  intro hto
  have ho := Span.contains_iff.mp hto
  have hs := hordered s (h.mem s (by simp))
  have hhi := (h.reaches s (by simp)).2
  rcases List.mem_cons.mp (h.complete t ht o hlo (by omega) hto) with rfl | hmem
  · omega
  · have := (List.pairwise_cons.mp h.apart).1 t hmem
    omega

theorem OnLine.tail (h : OnLine hidden lo hi (s :: spans))
    (hordered : ∀ s ∈ hidden, s.start ≤ s.stop) : OnLine hidden (min s.stop hi) hi spans := by
  obtain ⟨hs, hspans⟩ := List.pairwise_cons.mp h.apart
  have hlo := (h.reaches s (by simp)).1
  refine ⟨hspans, fun t ht => h.mem t (by simp [ht]), fun t ht => ?_, fun t ht o hlo' hhi hto => ?_⟩
  · have := hs t ht
    have := h.reaches t (by simp [ht])
    have := hordered t (h.mem t (by simp [ht]))
    omega
  · have ho := Span.contains_iff.mp hto
    rcases List.mem_cons.mp (h.complete t ht o (by omega) hhi hto) with rfl | hmem
    · omega
    · exact hmem

/-- The places where the part of a hidden span on a line starts and stops. -/
theorem places_of_hidden {c e : Cursor} (hc : c.On source) (he : e.On source) (hce : c.offset ≤ e.offset)
    (hs : s.InText source) (hlo : c.offset ≤ s.stop) (hhi : s.start ≤ e.offset) :
    ∃ a b : Cursor, c.Reaches a ∧ a.Reaches b ∧ b.Reaches e ∧ a.offset = max c.offset s.start ∧
      b.offset = min s.stop e.offset := by
  have hordered := hs.ordered
  obtain ⟨a, ha, hao⟩ : ∃ a : Cursor, a.On source ∧ a.offset = max c.offset s.start := by
    by_cases hle : c.offset ≤ s.start
    · exact ⟨_, on_atOffset hs.startsBetween, by simp only [atOffset]; omega⟩
    · exact ⟨c, hc, by omega⟩
  obtain ⟨b, hb, hbo⟩ : ∃ b : Cursor, b.On source ∧ b.offset = min s.stop e.offset := by
    by_cases hle : s.stop ≤ e.offset
    · exact ⟨_, on_atOffset hs.stopsBetween, by simp only [atOffset]; omega⟩
    · exact ⟨e, he, by omega⟩
  exact ⟨a, b, hc.reaches_of_le ha (by omega), ha.reaches_of_le hb (by omega),
    hb.reaches_of_le he (by omega), hao, hbo⟩

/-- The text `u` from `a` to `b` is what a hidden span has of the line from `c` to `e`. -/
structure PartOf (s : Span) (c e a : Cursor) (u : List Char) (b : Cursor) : Prop where
  path : a.Path u b
  start : a.offset = max c.offset s.start
  stop : b.offset = min s.stop e.offset

/-- How a line is written from `c` to its end `e`, where `spans` are hidden and `indent` is to be
dropped: each hidden span leaves a placeholder if it shows, and takes the indent with it. -/
inductive WritesLine (e : Cursor) : (c : Cursor) → (indent : Nat) → (spans : List Span) → List Piece → Prop
  | rest {c : Cursor} {indent left : Nat} {ps : List Piece} : WritesRun c e indent (ps, left) →
    WritesLine e c indent [] ps
  | blank {c a b : Cursor} {u : List Char} {indent left : Nat} {s : Span} {spans : List Span}
    {ps qs : List Piece} : WritesRun c a indent (ps, left) → PartOf s c e a u b → u.all isBlank = true →
    WritesLine e b left spans qs → WritesLine e c indent (s :: spans) (ps ++ qs)
  | shows {c a b : Cursor} {u : List Char} {indent left : Nat} {s : Span} {spans : List Span}
    {ps qs : List Piece} : WritesRun c a indent (ps, left) → PartOf s c e a u b → ¬ u.all isBlank = true →
    WritesLine e b 0 spans qs →
    WritesLine e c indent (s :: spans) (ps ++ .literal placeholder.toList :: qs)

theorem writesLine_linePieces {e : Cursor} (hhidden : ∀ h ∈ hidden, h.InText source) (indent : Nat)
    (c : Cursor) (rest : List Char) (hc : c.On source) (hrest : c.Path rest e)
    (hline : OnLine hidden c.offset e.offset spans) :
    WritesLine e c indent spans (linePieces indent c.offset e.offset rest spans) := by
  induction spans generalizing indent c rest with
  | nil => exact .rest (writesRun_prosePieces hrest.reaches hrest (Nat.le_refl _) indent)
  | cons s spans ih =>
    obtain ⟨hlo, hhi⟩ := hline.reaches s (by simp)
    obtain ⟨a, b, hca, ⟨u, hu⟩, hbe, hao, hbo⟩ := places_of_hidden hc (hc.reaches hrest.reaches) hrest.le
      (hhidden s (hline.mem s (by simp))) hlo hhi
    have hrun := writesRun_prosePieces hca hrest (Nat.le_trans hu.le hbe.le) indent
    have htail := hline.tail fun h hh => (hhidden h hh).ordered
    rw [← hbo] at htail
    obtain ⟨t, ht⟩ := hca
    obtain ⟨v, rfl, hv⟩ := (ht.trans hu).split hrest hbe.le
    have hinside : takeBytes (dropBytes ((t ++ u) ++ v) (a.offset - c.offset)) (b.offset - a.offset) = u := by
      have htlen : a.offset - c.offset = byteLength t := by have := ht.offset; omega
      have hulen : b.offset - a.offset = byteLength u := by have := hu.offset; omega
      rw [htlen, hulen, List.append_assoc, dropBytes_append, takeBytes_append]
    have hbehind : dropBytes ((t ++ u) ++ v) (b.offset - c.offset) = v := by
      have hlen : b.offset - c.offset = byteLength (t ++ u) := by have := (ht.trans hu).offset; omega
      rw [hlen, dropBytes_append]
    have hb := hc.reaches (ht.trans hu).reaches
    simp only [linePieces, ← hao, ← hbo, hinside, hbehind]
    split
    · next hblank => exact .blank hrun ⟨hu, hao, hbo⟩ hblank (ih _ b v hb hv htail)
    · next hshows => exact .shows hrun ⟨hu, hao, hbo⟩ hshows (ih 0 b v hb hv htail)

section Written

variable {c e a b : Cursor} {u : List Char} {indent : Nat} {run : List Piece × Nat} {ps : List Piece}
  {more : List Span}

/-- The spans that are left are on what is left of the line. -/
theorem OnLine.behind (h : OnLine hidden c.offset e.offset (s :: spans))
    (hordered : ∀ s ∈ hidden, s.start ≤ s.stop) (hpart : PartOf s c e a u b) :
    OnLine hidden b.offset e.offset spans := by
  rw [hpart.stop]
  exact h.tail hordered

theorem shown_of_part (hhidden : ∀ h ∈ hidden, h.InText source) (hc : c.On source)
    (hline : OnLine hidden c.offset e.offset (s :: spans)) (hrun : WritesRun c a indent run)
    (hpart : PartOf s c e a u b) (hafter : Shown source hidden b e more) :
    Shown source hidden c e (copiedSpans run.1 ++ more) := by
  have hstart := hpart.start
  have hstop := hpart.stop
  have hab := hpart.path.le
  have hfree := hline.free_before fun h hh => (hhidden h hh).ordered
  rw [← hstart] at hfree
  have hbefore := hrun.shown hc hfree
  have hinside : Shown source hidden a b [] := .inHidden (hline.mem s (by simp)) (by omega) (by omega)
  simpa using hbefore.append (hinside.append hafter hab (by omega)) hrun.reaches.le (by omega)

/-- The line from `c` to `e`. -/
theorem WritesLine.shown (h : WritesLine e c indent spans ps) (hhidden : ∀ h ∈ hidden, h.InText source)
    (hc : c.On source) (hline : OnLine hidden c.offset e.offset spans) :
    Shown source hidden c e (copiedSpans ps) := by
  have hordered : ∀ h ∈ hidden, h.start ≤ h.stop := fun h hh => (hhidden h hh).ordered
  induction h with
  | rest hrun => exact hrun.shown hc hline.free_of_nil
  | blank hrun hpart _ _ ih =>
    have hb := hc.reaches (hrun.reaches.trans hpart.path.reaches)
    rw [copiedSpans_append]
    exact shown_of_part hhidden hc hline hrun hpart (ih hb (hline.behind hordered hpart))
  | shows hrun hpart _ _ ih =>
    have hb := hc.reaches (hrun.reaches.trans hpart.path.reaches)
    rw [copiedSpans_append, copiedSpans_literal]
    exact shown_of_part hhidden hc hline hrun hpart (ih hb (hline.behind hordered hpart))

end Written

end Line

/-! ## The text -/

theorem splitLines_ne_nil (cs : List Char) : splitLines cs ≠ [] := by
  cases cs with
  | nil => simp [splitLines]
  | cons c cs =>
    rw [splitLines]
    split
    · simp
    · split <;> simp

/-- The first line is the whole text, or a line feed and the other lines follow it. -/
theorem splitLines_eq_cons {cs line : List Char} {lines : List (List Char)}
    (h : splitLines cs = line :: lines) : (cs = line ∧ lines = []) ∨
      (lines ≠ [] ∧ ∃ rest, cs = line ++ '\n' :: rest ∧ splitLines rest = lines) := by
  induction cs generalizing line with
  | nil =>
    simp only [splitLines, List.cons.injEq] at h
    exact .inl ⟨h.1, h.2.symm⟩
  | cons c cs ih =>
    rw [splitLines] at h
    split at h
    · next hc =>
      obtain ⟨rfl, rfl⟩ := List.cons.inj h
      exact .inr ⟨splitLines_ne_nil cs, cs, by simpa using hc, rfl⟩
    · split at h
      · next hnil => exact absurd hnil (splitLines_ne_nil cs)
      · next first others heq =>
        obtain ⟨rfl, rfl⟩ := List.cons.inj h
        rcases ih heq with ⟨rfl, hnil⟩ | ⟨hne, rest, rfl, hrest⟩
        · exact .inl ⟨rfl, hnil⟩
        · exact .inr ⟨hne, rest, rfl, hrest⟩

theorem notMem_of_splitLines {cs line : List Char} {lines : List (List Char)}
    (h : splitLines cs = line :: lines) : '\n' ∉ line := by
  induction cs generalizing line lines with
  | nil =>
    cases h
    simp
  | cons c cs ih =>
    rw [splitLines] at h
    split at h
    · cases h
      simp
    · next hc =>
      split at h
      · next hnil => exact absurd hnil (splitLines_ne_nil cs)
      · next first others heq =>
        cases h
        have hne : '\n' ≠ c := fun hfeed => hc (beq_iff_eq.mpr hfeed.symm)
        simpa [hne] using ih heq

theorem takeWhile_append_feed {line : List Char} (h : '\n' ∉ line) (rest : List Char) :
    (line ++ '\n' :: rest).takeWhile (· != '\n') = line := by
  rw [List.takeWhile_append_of_pos]
  · simp
  · intro ch hch
    have hne : ch ≠ '\n' := fun heq => h (heq ▸ hch)
    simpa using hne

/-- The lines of what is left of a text: that of the cursor, and those from the next one on. -/
theorem splitLines_rest (c : Cursor) : (c.lineEnd.rest = [] ∧ splitLines c.rest = [c.line]) ∨
    (c.lineEnd.Path ['\n'] c.nextLine ∧ splitLines c.rest = c.line :: splitLines c.nextLine.rest) := by
  have hend := path_lineEnd c
  cases hlines : splitLines c.rest with
  | nil => exact absurd hlines (splitLines_ne_nil _)
  | cons line lines =>
    have hfeed := notMem_of_splitLines hlines
    rcases splitLines_eq_cons hlines with ⟨hrest, rfl⟩ | ⟨_, rest, hrest, rfl⟩
    · have hline : c.line = line := by
        have hall : ∀ ch ∈ line, (ch != '\n') = true :=
          fun ch hch => bne_iff_ne.mpr fun heq => hfeed (heq ▸ hch)
        have hwhole : (line ++ []).takeWhile (· != '\n') = line ++ [].takeWhile (· != '\n') :=
          List.takeWhile_append_of_pos hall
        rw [Cursor.line, hrest]
        simpa using hwhole
      rw [hline] at hend ⊢
      have hnil := hend.rest
      rw [hrest] at hnil
      exact .inl ⟨by simpa using hnil, rfl⟩
    · have hline : c.line = line := by rw [Cursor.line, hrest, takeWhile_append_feed hfeed]
      rw [hline] at hend ⊢
      have hbehind := hend.rest
      rw [hrest, List.append_cancel_left_eq] at hbehind
      have hnext := path_cons hbehind.symm
      have hlater := hnext.rest
      rw [← hbehind] at hlater
      refine .inr ⟨hnext, ?_⟩
      rw [nextLine, (List.cons.inj hlater).2]
      simp

/-- The hidden spans that reach into a line. -/
theorem onLine_filter (hapart : hidden.Pairwise fun s t => s.stop < t.start) (lo hi : Nat) :
    OnLine hidden lo hi (hidden.filter fun s => lo < s.stop && s.start < hi) where
  apart := hapart.filter _
  mem := fun s hs => (List.mem_filter.mp hs).1
  reaches := by
    intro s hs
    have := (List.mem_filter.mp hs).2
    simp only [Bool.and_eq_true, decide_eq_true_eq] at this
    omega
  complete := by
    intro h hh o hlo hhi ho
    rw [Span.contains_iff] at ho
    refine List.mem_filter.mpr ⟨hh, ?_⟩
    simp only [Bool.and_eq_true, decide_eq_true_eq]
    omega

/-- The pieces of the line at `c`. -/
def lineOf (hidden : List Span) (bases : List (Span × Nat)) (c : Cursor) : List Piece :=
  linePieces (lineIndent bases c.offset) c.offset c.lineEnd.offset c.line
    (hidden.filter fun s => c.offset < s.stop && s.start < c.lineEnd.offset)

/-- The piece for the line feed behind the line at `c`. -/
def feedOf (hidden : List Span) (c : Cursor) : Piece :=
  if hidden.any (·.contains c.lineEnd.offset) then .literal ['\n']
  else .copied (c.lineEnd.spanTo c.nextLine.offset)

/-- The pieces of a text, line by line from the last one back. -/
theorem linesPieces_induction {bases : List (Span × Nat)} {motive : Cursor → List Piece → Prop}
    (last : ∀ c, c.lineEnd.rest = [] → motive c (lineOf hidden bases c))
    (more : ∀ c ps, c.lineEnd.Path ['\n'] c.nextLine → motive c.nextLine ps →
      motive c (lineOf hidden bases c ++ feedOf hidden c :: ps)) (c : Cursor) :
    motive c (linesPieces hidden bases c.offset (splitLines c.rest)) := by
  induction hn : c.rest.length using Nat.strongRecOn generalizing c with
  | ind n ih =>
    have hend := path_lineEnd c
    rcases splitLines_rest c with ⟨hnil, hlines⟩ | ⟨hfeed, hlines⟩
    · rw [hlines, linesPieces, ← hend.offset, if_pos List.isEmpty_nil]
      exact last c hnil
    · have hlt : c.nextLine.rest.length < c.rest.length := by
        have := hend.length_le
        have := hfeed.length_lt (by simp)
        omega
      have hmore : ¬ (splitLines c.nextLine.rest).isEmpty = true := by simpa using splitLines_ne_nil _
      have hnext : c.nextLine.offset = c.lineEnd.offset + 1 := hfeed.offset
      rw [hlines, linesPieces, ← hend.offset, if_neg hmore, ← hnext]
      exact more c _ hfeed (ih _ (by omega) _ rfl)

theorem writesLine_lineOf (hhidden : ∀ h ∈ hidden, h.InText source)
    (hapart : hidden.Pairwise fun s t => s.stop < t.start) (bases : List (Span × Nat)) {c : Cursor}
    (hc : c.On source) : WritesLine c.lineEnd c (lineIndent bases c.offset)
      (hidden.filter fun s => c.offset < s.stop && s.start < c.lineEnd.offset) (lineOf hidden bases c) :=
  writesLine_linePieces hhidden _ c c.line hc (path_lineEnd c) (onLine_filter hapart _ _)

theorem shown_lineOf (hhidden : ∀ h ∈ hidden, h.InText source)
    (hapart : hidden.Pairwise fun s t => s.stop < t.start) (bases : List (Span × Nat)) {c : Cursor}
    (hc : c.On source) : Shown source hidden c c.lineEnd (copiedSpans (lineOf hidden bases c)) :=
  (writesLine_lineOf hhidden hapart bases hc).shown hhidden hc (onLine_filter hapart _ _)

/-- A line feed is copied, or written if it is hidden. -/
theorem shown_feedOf {c : Cursor} (hc : c.On source) (hfeed : c.lineEnd.Path ['\n'] c.nextLine) :
    Shown source hidden c.lineEnd c.nextLine (copiedSpans [feedOf hidden c]) := by
  have he := hc.reaches (path_lineEnd c).reaches
  rw [feedOf]
  split
  · refine .blank he hfeed fun ch hch => ?_
    rw [List.mem_singleton.mp hch]
    decide
  · next hfree =>
    have hd : c.nextLine.offset = c.lineEnd.offset + 1 := hfeed.offset
    refine .all he hfeed.reaches fun h hh o hlo hhi => ?_
    have heq : o = c.lineEnd.offset := by omega
    rw [heq, ← Bool.not_eq_true]
    exact fun ho => hfree (List.any_eq_true.mpr ⟨h, hh, ho⟩)

theorem lineEnd_eq_ofEnd {c : Cursor} (hc : c.On source) (h : c.lineEnd.rest = []) : c.lineEnd = ofEnd source := by
  have hpath := (hc.reaches (path_lineEnd c).reaches).path_ofEnd
  rw [h] at hpath
  exact hpath.drop_length

theorem shown_linesPieces (hhidden : ∀ h ∈ hidden, h.InText source)
    (hapart : hidden.Pairwise fun s t => s.stop < t.start) (bases : List (Span × Nat)) (c : Cursor)
    (hc : c.On source) : Shown source hidden c (ofEnd source)
      (copiedSpans (linesPieces hidden bases c.offset (splitLines c.rest))) := by
  revert hc
  refine linesPieces_induction
    (motive := fun c ps => c.On source → Shown source hidden c (ofEnd source) (copiedSpans ps)) ?_ ?_ c
  · intro c hlast hc
    have hline := shown_lineOf hhidden hapart bases hc
    rwa [lineEnd_eq_ofEnd hc hlast] at hline
  · intro c ps hfeed ih hc
    have hend := path_lineEnd c
    have hn := hc.reaches (hend.trans hfeed).reaches
    have hline := shown_lineOf hhidden hapart bases hc
    rw [copiedSpans_append, copiedSpans_cons]
    exact hline.append ((shown_feedOf hc hfeed).append (ih hn) hfeed.le hn.le) hend.le
      (Nat.le_trans hfeed.le hn.le)

/-- The spans that the prose view copies. -/
theorem shown_pieces {nonProse : RangeSet} (hin : ∀ s ∈ nonProse.merged, s.InText source)
    (hapart : nonProse.merged.Pairwise fun s t => s.stop < t.start) (content : RangeSet) :
    Shown source nonProse.merged (ofText source) (ofEnd source)
      (copiedSpans (pieces source nonProse content)) :=
  shown_linesPieces hin hapart _ (ofText source) (on_ofText source)

end Prose

end Mdx

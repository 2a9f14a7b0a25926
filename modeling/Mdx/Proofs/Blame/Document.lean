/-
A document that does not parse fails at a part of its text (`parse_error_blamed`).
The readers of inline content, of lines and of flow content only pass on the
errors of what they read, or blame a tag or a character that they stand at.
-/
import Mdx.Proofs.Blame.Tag
import Mdx.Proofs.Tree.Document

namespace Mdx

open Cursor

variable {cs : List Char} {c : Cursor} {ch : Char} {rest : List Char}

/-! ## Inline content -/

theorem blames_reach (math : Bool) (scope : Scope) (hc : c.On cs) (hrest : c.rest = ch :: rest)
    (hsize : ch.utf8Size = 1) (next stop : Cursor) : Blames cs (scope.reach math c next stop) := by
  unfold Scope.reach
  split
  · exact .ok trivial
  · cases scope with
    | heading =>
      exact .error ⟨c, _, _, hc, path_cons hrest, by simp, byteSpan_eq hrest hsize, of_opener?_none rfl⟩
    | paragraph container => exact .ok trivial

theorem reaches_markedSpan {marker : Char} {stop next : Cursor}
    (h : markedSpan marker c stop = .ok next ∨ markedSpan marker c stop = .error next) : c.Reaches next := by
  unfold markedSpan at h
  dsimp only at h
  split at h <;> rcases h with h | h <;> cases h <;> exact reaches_drop _ _

/-- Reading inline content goes on from the cursor, and an error is blamed on the text. -/
theorem answers_readInline (math : Bool) (scope : Scope) (fuel : Nat) {enclosing : Option Tag}
    {textStart stop : Cursor} (hc : c.On cs) :
    Answers (ParseError.Blamed cs) (fun run => c.Reaches run.next) (readInline math scope fuel enclosing textStart c stop) := by
  induction fuel generalizing c enclosing textStart stop with
  | zero => exact .ok (.refl c)
  | succ fuel ih =>
    have later : ∀ {next : Cursor} {enclosing : Option Tag} {textStart stop : Cursor}, c.Reaches next →
        Answers (ParseError.Blamed cs) (fun run => c.Reaches run.next)
          (readInline math scope fuel enclosing textStart next stop) :=
      fun hnext => (ih (hc.reaches hnext)).mono fun _ hrun => hnext.trans hrun
    simp only [readInline, inlineRound]
    split
    · exact .ok (.refl c)
    split
    · exact .ok (.refl c)
    next ch rest hrest =>
    split
    · split
      · next next hspan => exact (later (reaches_markedSpan (.inl hspan))).bind fun _ _ hrun => .ok hrun
      · next next hspan => exact later (reaches_markedSpan (.inr hspan))
    split
    · exact later (reaches_drop _ _)
    split
    · next hbrace =>
      rw [beq_iff_eq.mp hbrace] at hrest
      refine (Script.blames_closingBrace hc hrest).bind_true fun close hclose => ?_
      refine (blames_reach math scope hc hrest (by decide) _ _).bind_true fun stop' _ => ?_
      exact (later (Tag.reaches_closeBrace hclose)).bind fun _ _ hrun => .ok hrun
    split
    · next htag =>
      rw [beq_iff_eq.mp (Bool.and_eq_true_iff.mp htag).1] at hrest
      have hlt : AngleAt cs c := ⟨hc, _, hrest⟩
      refine (Tag.blames_read hlt).bind_true fun found hread => ?_
      obtain ⟨tag, next⟩ := found
      refine (blames_reach math scope hc hrest (by decide) _ _).bind_true fun stop' _ => ?_
      have hnext := Tag.reaches_read hread
      dsimp only
      split
      · cases enclosing with
        | none => exact .error (Tag.blamed_span hlt hread rfl)
        | some opening =>
          dsimp only
          split
          · exact .ok hnext
          · exact .error (Tag.blamed_span hlt hread rfl)
      next hopening =>
      split
      · exact (later hnext).bind fun _ _ hrun => .ok hrun
      · next hself =>
        refine (later hnext).bind fun inner _ hinner => ?_
        split
        · exact .error (Tag.blamed_unclosed hlt hread (by simpa using hopening) (by simpa using hself) _)
        · exact (later hinner).bind fun _ _ hrun => .ok hrun
    · exact later (reaches_drop _ _)

theorem blames_inlineNodes (math : Bool) (scope : Scope) (hc : c.On cs) (stop : Cursor) :
    Blames cs (inlineNodes math scope c stop) :=
  (answers_readInline math scope _ hc).bind fun _ _ _ => .ok trivial

/-! ## Lines -/

theorem blames_readModule (hc : c.On cs) : Blames cs (readModule c) := by
  obtain ⟨t, ht⟩ := (reaches_moduleLast (c := c) (.inl rfl)).trans (path_lineEnd _).reaches
  obtain ⟨tail, hmodule, -⟩ := path_trimmedTo ht
  unfold readModule
  dsimp only
  rw [hmodule.upTo]
  exact (Script.blames_checkBalanced hc hmodule).bind_true fun _ _ => .ok trivial

theorem blames_readHeading (math : Bool) (depth : Nat) (hc : c.On cs) :
    Blames cs (readHeading math depth c) := by
  unfold readHeading
  exact (blames_inlineNodes math .heading (hc.reaches (reaches_headingStart depth c)) _).bind_true
    fun _ _ => .ok trivial

theorem blames_readParagraph (math : Bool) (container : Option Tag) (hc : c.On cs) :
    Blames cs (readParagraph math container c) :=
  (blames_inlineNodes math (.paragraph container) hc _).bind_true fun _ _ => .ok trivial

theorem blames_readFlowExpression? (hc : c.On cs) : Blames cs (readFlowExpression? c) := by
  unfold readFlowExpression?
  split
  · next hopen =>
    obtain ⟨rest, hrest⟩ := List.head?_eq_some_iff.mp (beq_iff_eq.mp hopen)
    refine (Script.blames_closingBrace hc hrest).bind_true fun close _ => ?_
    dsimp only
    split <;> exact .ok trivial
  · exact .ok trivial

theorem angleAt_of_startsAt (hc : c.On cs) (h : Tag.startsAt c = true) : AngleAt cs c := by
  unfold Tag.startsAt at h
  split at h
  · next hrest => exact ⟨hc, _, hrest⟩
  · cases h

theorem answers_flowTag? (hc : c.On cs) :
    Answers (ParseError.Blamed cs) (fun found => found.isSome = true → Tag.startsAt c = true) (flowTag? c) := by
  unfold flowTag?
  split
  · next hstarts =>
    have hlt := angleAt_of_startsAt hc hstarts
    exact (Tag.blames_read hlt).bind_true fun _ _ => .ok fun _ => hstarts
  · exact .ok (by simp)

/-- A line that opens an element does it with a tag. -/
theorem answers_openLine (math : Bool) (container : Option Tag) (line : Cursor) (hc : c.On cs) :
    Answers (ParseError.Blamed cs) (fun opening => ∀ tag next, opening = .element tag next → Tag.startsAt c = true)
      (openLine math container line c) := by
  unfold openLine
  split
  · exact (blames_readModule hc).bind_true fun _ _ => .ok (by simp)
  split
  · exact .ok (by simp)
  split
  · next depth _ => exact (blames_readHeading math depth hc).bind_true fun _ _ => .ok (by simp)
  split
  · exact .ok (by simp)
  refine (answers_flowTag? hc).bind fun found _ htag => ?_
  split
  · exact .ok fun _ _ _ => htag rfl
  refine (blames_readFlowExpression? hc).bind_true fun found _ => ?_
  split
  · exact .ok (by simp)
  · exact (blames_readParagraph math container hc).bind_true fun _ _ => .ok (by simp)

theorem blames_readClosing (container : Option Tag) (hlt : AngleAt cs c) :
    Blames cs (readClosing container c) := by
  unfold readClosing
  refine (Tag.blames_read hlt).bind_true fun found hread => ?_
  obtain ⟨closing, next⟩ := found
  dsimp only
  split
  · exact .error (Tag.blamed_span hlt hread rfl)
  split
  · split
    · exact .ok trivial
    · next hend =>
      have hafter := path_skipWhile next fun ch => isBlank ch && ch != '\n'
      have hne : (next.skipWhile fun ch => isBlank ch && ch != '\n').rest ≠ [] :=
        fun hnil => hend (isLineEnd_iff.mpr (.inl hnil))
      obtain ⟨ch, rest, hrest⟩ := List.exists_cons_of_ne_nil hne
      have hon := hlt.on.reaches ((Tag.reaches_read hread).trans hafter.reaches)
      exact .error (blamed_charSpan hon hrest rfl)
  · exact .error (Tag.blamed_span hlt hread rfl)

/-! ## Documents -/

/-- The tag is one of the text that opens an element. -/
structure Tag.Opens (cs : List Char) (lt : Cursor) (tag : Tag) : Prop where
  angle : AngleAt cs lt
  read : ∃ next, Tag.read lt = .ok (tag, next)
  opening : tag.closing = false
  notSelfClosing : tag.selfClosing = false

theorem blames_endOfFlow {container : Option Tag} (hcontainer : ∀ tag ∈ container, ∃ lt, tag.Opens cs lt) :
    Blames cs (endOfFlow container) := by
  cases container with
  | none => exact .ok trivial
  | some tag =>
    obtain ⟨lt, hopens⟩ := hcontainer tag rfl
    obtain ⟨next, hread⟩ := hopens.read
    have hstart : tag.span.start = lt.offset := congrArg Span.start (Tag.read_ok hread).2.1
    rw [endOfFlow, hstart]
    exact .error (Tag.blamed_unclosed hopens.angle hread hopens.opening hopens.notSelfClosing .document)

theorem blames_readFlow (math : Bool) (fuel : Nat) {container : Option Tag} {line : Cursor}
    (hline : line.On cs) (hfuel : line.rest.length < fuel)
    (hcontainer : ∀ tag ∈ container, ∃ lt, tag.Opens cs lt) : Blames cs (readFlow math fuel container line) := by
  induction fuel generalizing container line with
  | zero => omega
  | succ fuel ih =>
    obtain ⟨indent, hindent, -⟩ := path_skipIndent line
    have hstart := hline.reaches hindent.reaches
    have hle := hindent.length_le
    simp only [readFlow, flowRound]
    split
    · exact blames_endOfFlow hcontainer
    next hne =>
    have hne : line.rest ≠ [] := fun hnil => hne (List.isEmpty_iff.mpr hnil)
    split
    · have hlt := length_nextLine_lt hne
      exact ih (hline.reaches (reaches_nextLine line)) (by omega) hcontainer
    next hend =>
    have hsne : line.skipIndent.rest ≠ [] := fun hnil => hend (isLineEnd_iff.mpr (.inl hnil))
    split
    · next hslash =>
      obtain ⟨rest, hrest⟩ := startsWith_closing hslash
      exact (blames_readClosing container ⟨hstart, _, hrest⟩).bind_true fun _ _ => .ok trivial
    next hslash =>
    refine (answers_openLine math container line hstart).bind fun opening hopening hstarts => ?_
    have proceed : ∀ {n : Node} {next : Cursor}, TakesLines cs line.skipIndent n next →
        Blames cs (readFlow math fuel container next >>= fun found => pure (n :: found.1, found.2)) := by
      intro n next hn
      obtain ⟨b, gap, hb, -, hgap, -⟩ := hn.ends
      have hlt := hn.shorter
      exact (ih (hstart.reaches (hb.trans hgap.reaches)) (by omega) hcontainer).bind_true fun _ _ => .ok trivial
    cases openLine_ok hopening hstart hsne with
    | block hn => exact proceed hn
    | @element tag next hread hblank =>
      have hnext := Tag.reaches_read hread
      dsimp only
      split
      · next hself =>
        have hplaced := placed_leaf hstart hnext (.blockTag hread hself)
        have hspan := (Tag.read_ok hread).2.1
        rw [hspan]
        exact proceed (.of_isLineBlank hsne hnext rfl hblank hplaced)
      · next hself =>
        have hlt := length_nextLine_lt_of_reaches hsne hnext
        have hinside : ∀ t ∈ some tag, ∃ lt, t.Opens cs lt := by
          intro t ht
          cases ht
          have hstarts := hstarts tag next rfl
          have hopening := Tag.closing_eq_false hread hstarts (by simpa using hslash)
          exact ⟨_, angleAt_of_startsAt hstart hstarts, ⟨next, hread⟩, hopening, by simpa using hself⟩
        refine (ih (hstart.reaches (hnext.trans (reaches_nextLine next))) (by omega) hinside).bind_true
          fun found hinner => ?_
        obtain ⟨nodes, closing⟩ := found
        obtain ⟨tag', after, rfl, hn⟩ :=
          ReadsFlow.element (readFlow_ok cs math fuel) hstart hsne (by omega) hread hblank hinner
        exact proceed hn

/-- A document that does not parse fails at a part of its text. -/
theorem parse_error_blamed {options : ParseOptions} {e : ParseError} (h : parse options cs = .error e) :
    e.Blamed cs := by
  have hflow : ∀ {front : List Node} {flow : Cursor}, flow.On cs →
      Blames cs (readFlow options.math (flow.rest.length + 1) none flow >>= fun found =>
        pure (Node.branch .root ⟨0, byteLength cs⟩ (front ++ found.1))) := fun hon =>
    (blames_readFlow options.math _ hon (by omega) (by simp)).bind_true fun _ _ => .ok trivial
  have hparse : Blames cs (parse options cs) := by
    unfold parse readFront
    cases hfront : readFrontmatter? options.dialects (ofText cs) with
    | none => exact hflow (on_ofText cs)
    | some found =>
      obtain ⟨n, next⟩ := found
      obtain ⟨b, gap, hb, -, hgap, -⟩ := (readFrontmatter?_ok hfront (on_ofText cs)).ends
      exact hflow (hb.trans hgap.reaches)
  rw [h] at hparse
  cases hparse with
  | error he => exact he

/-- **Errors are usable.** The span of an error is not empty, lies in the text and stands on character
boundaries. If something was not closed, it is the one byte of the character that opened it. -/
theorem parse_error_usable {options : ParseOptions} {e : ParseError} (h : parse options cs = .error e) :
    e.span.start < e.span.stop ∧ e.span.stop ≤ byteLength cs ∧
    isBoundary cs e.span.start = true ∧ isBoundary cs e.span.stop = true ∧
    ∀ ch, e.cause.opener? = some ch → e.span.stop = e.span.start + 1 ∧
      charAt? cs e.span.start = some ch ∧ e.LeftOpen cs (.atOffset cs e.span.start) := by
  obtain ⟨a, b, t, ha, hab, hne, hspan, hopen⟩ := parse_error_blamed h
  have hb := ha.reaches hab.reaches
  rw [hspan]
  refine ⟨hab.lt hne, hb.le, ha.isBoundary, hb.isBoundary, fun ch hch => ?_⟩
  obtain ⟨rfl, hsize, hleft⟩ := hopen ch hch
  refine ⟨?_, charAt?_offset ha hab.rest, ?_⟩
  · show b.offset = a.offset + 1
    rw [hab.offset, byteLength_cons, hsize, byteLength_nil]
  · show e.LeftOpen cs (.atOffset cs a.offset)
    rw [ha.atOffset_eq]
    exact hleft

/-- A value in quotes that never ends, behind a character of two bytes. -/
theorem parse_error_usable_quote : ∃ e, parse .plain "é <B c='d".toList = .error e ∧
    e.span = ⟨8, 9⟩ ∧ e.cause.opener? = some '\x27' ∧ charAt? "é <B c='d".toList 8 = some '\x27' ∧
    isBoundary "é <B c='d".toList 8 = true ∧ isBoundary "é <B c='d".toList 9 = true := by
  have herror : parse .plain "é <B c='d".toList = .error ⟨.unclosedQuote '\x27', ⟨8, 9⟩⟩ :=
    error_of_failure? (by decide +kernel)
  obtain ⟨-, -, hstart, hstop, hopen⟩ := parse_error_usable herror
  exact ⟨_, herror, rfl, rfl, (hopen _ rfl).2.1, hstart, hstop⟩

end Mdx

/-
Reading the attributes of a tag and reading inline content advance: a round reads
on only behind the characters it has read itself.

The end that inline content runs to may move on with each round. The place moves
on as well, and stays at or before the end, so what is cut off at the end is
always a text between two places (`Reading`).
-/
import Mdx.Proofs.Progress.Round
import Mdx.Proofs.Tree.Inline

namespace Mdx

open Cursor

namespace Cursor

variable {c d e : Cursor} {t : List Char}

/-- `d` is a place behind `c`, by one character or more. -/
def Before (c d : Cursor) : Prop := ∃ t, t ≠ [] ∧ c.Path t d

theorem Path.before (h : c.Path t d) (ht : t ≠ []) : c.Before d := ⟨t, ht, h⟩

theorem Before.reaches (h : c.Before d) : c.Reaches d := by
  obtain ⟨t, -, h⟩ := h
  exact h.reaches

theorem Before.length_lt (h : c.Before d) : d.rest.length < c.rest.length := by
  obtain ⟨t, ht, h⟩ := h
  exact h.length_lt ht

theorem Before.lt (h : c.Before d) : c.offset < d.offset := by
  obtain ⟨t, ht, h⟩ := h
  exact h.lt ht

theorem Before.trans_reaches (h : c.Before d) (h' : d.Reaches e) : c.Before e := by
  obtain ⟨t, ht, h⟩ := h
  obtain ⟨u, h'⟩ := h'
  exact ⟨t ++ u, by simp [ht], h.trans h'⟩

theorem Reaches.trans_before (h : c.Reaches d) (h' : d.Before e) : c.Before e := by
  obtain ⟨t, h⟩ := h
  obtain ⟨u, hu, h'⟩ := h'
  exact ⟨t ++ u, by simp [hu], h.trans h'⟩

/-- A place with fewer characters left is behind one that reaches it. -/
theorem Reaches.before_of_length (h : c.Reaches d) (hlt : d.rest.length < c.rest.length) : c.Before d := by
  obtain ⟨t, h⟩ := h
  refine ⟨t, ?_, h⟩
  rintro rfl
  rw [h.rest] at hlt
  simp at hlt

end Cursor

variable {cs : List Char}

/-! ## Attributes -/

namespace Tag

variable {lt c next : Cursor}

theorem before_readName {ch : Char} {rest : List Char} (hrest : c.rest = ch :: rest)
    (hch : isNameStart ch = true) : c.Before (readName c).2 := by
  refine (path_skipWhile c isNameChar).before ?_
  rw [hrest, List.takeWhile_cons_of_pos (isNameChar_of_isNameStart hch)]
  simp

theorem before_readAttribute {a : Attribute} {ch : Char} {rest : List Char} (hrest : c.rest = ch :: rest)
    (hch : isNameStart ch = true) (h : readAttribute lt c = .ok (a, next)) : c.Before next := by
  have hname := before_readName hrest hch
  unfold readAttribute at h
  dsimp only at h
  split at h
  · obtain ⟨⟨value, next'⟩, hvalue, h⟩ := ok_of_bind h
    cases h
    have hequals := (reaches_skipBlanks (readName c).2).trans
      ((reaches_drop _ 1).trans (reaches_skipBlanks _))
    exact hname.trans_reaches (hequals.trans (readValue_ok hvalue).1)
  · cases h
    exact hname

theorem before_readSpread {a : Attribute} {rest : List Char} (hrest : c.rest = '\x7b' :: rest)
    (h : readSpread c = .ok (a, next)) : c.Before next := by
  unfold readSpread at h
  obtain ⟨close, hclose, h⟩ := ok_of_bind h
  obtain ⟨body, -, -, hwhole⟩ := Script.closingBrace_body hclose hrest
  dsimp only at h
  split at h
  · cases h
    exact hwhole.before (by simp)
  · cases h

theorem attributesRound_advances (cs : List Char) (lt : Cursor) :
    Advances (On cs) Before (fun _ _ => True) (attributesRound lt) := by
  intro read read' c hc hlater
  have hblanks := reaches_skipBlanks c
  have proceed : ∀ {first : Attribute} {next : Cursor}, c.skipBlanks.Before next →
      Alike (fun _ => True)
        (read next >>= fun found => pure (first :: found.1, found.2.1, found.2.2))
        (read' next >>= fun found => pure (first :: found.1, found.2.1, found.2.2)) := by
    intro first next hnext
    have hbefore := hblanks.trans_before hnext
    exact (hlater next (hc.reaches hbefore.reaches) hbefore).bind fun _ _ => .ok trivial
  simp only [attributesRound]
  cases hrest : c.skipBlanks.rest with
  | nil => exact .error
  | cons ch rest =>
    dsimp only
    split
    · exact .ok trivial
    split
    · split
      · exact .error
      · split
        · exact .ok trivial
        · exact .error
    split
    · next hstart =>
      split
      · next hbrace =>
        rw [beq_iff_eq.mp hbrace] at hrest
        exact Alike.bind_same fun found hfound => proceed (before_readSpread hrest hfound)
      · next hbrace =>
        have hname : isNameStart ch = true := by simpa [hbrace] using hstart
        exact Alike.bind_same fun found hfound => proceed (before_readAttribute hrest hname hfound)
    · exact .error

end Tag

/-! ## Inline content -/

/-- Where a reader of inline content stands. -/
structure InlineState where
  enclosing : Option Tag
  textStart : Cursor
  place : Cursor
  stop : Cursor

namespace InlineState

/-- The state is one in the text, and its end is at its place or behind it. -/
def Valid (cs : List Char) (s : InlineState) : Prop := Reading cs s.textStart s.place s.stop

/-- The place is further on, wherever the end is. -/
def Later (s t : InlineState) : Prop := s.place.Before t.place

/-- What is read from a state ends at its place or behind it, and at the end or before it. -/
structure Gives (s : InlineState) (run : InlineRun) : Prop where
  next : s.place.Reaches run.next
  ahead : run.next.Reaches run.stop
  settled : run.next.offset < run.stop.offset → run.stop.Settled

theorem Gives.after {s : InlineState} {run : InlineRun} (h : s.Gives run) (nodes : List Node) :
    s.Gives (run.after nodes) := ⟨h.next, h.ahead, h.settled⟩

/-- A round of reading inline content at a state. -/
def round (math : Bool) (scope : Scope) (read : InlineState → Except ParseError InlineRun)
    (s : InlineState) : Except ParseError InlineRun :=
  inlineRound math scope (fun enclosing textStart c stop => read ⟨enclosing, textStart, c, stop⟩)
    s.enclosing s.textStart s.place s.stop

/-- The inline content at a state, read in `fuel` rounds. -/
def run (math : Bool) (scope : Scope) (fuel : Nat) (s : InlineState) : Except ParseError InlineRun :=
  readInline math scope fuel s.enclosing s.textStart s.place s.stop

end InlineState

section Step

variable {s : InlineState} {read read' : InlineState → Except ParseError InlineRun}
  {math : Bool} {scope : Scope}

/-- Two readers that give the same at the states behind `s`. -/
abbrev AlikeBehind (cs : List Char) (s : InlineState)
    (read read' : InlineState → Except ParseError InlineRun) : Prop :=
  ∀ t : InlineState, t.Valid cs → s.Later t → Alike t.Gives (read t) (read' t)

/-- Reading on behind the place gives what a round may give. -/
theorem AlikeBehind.onward (h : AlikeBehind cs s read read') {t : InlineState} (ht : t.Valid cs)
    (hbefore : s.place.Before t.place) : Alike s.Gives (read t) (read' t) :=
  (h t ht hbefore).mono fun _ hrun => ⟨hbefore.reaches.trans hrun.next, hrun.ahead, hrun.settled⟩

/-- Behind a node the reading starts anew. -/
theorem AlikeBehind.node (h : AlikeBehind cs s read read') (hs : s.Valid cs) {next stop : Cursor}
    (hnext : s.place.Before next) (hstop : next.Reaches stop)
    (hset : next.offset < stop.offset → stop.Settled) (enclosing : Option Tag) (nodes : List Node) :
    Alike s.Gives (read ⟨enclosing, next, next, stop⟩ >>= fun run => pure (run.after nodes))
      (read' ⟨enclosing, next, next, stop⟩ >>= fun run => pure (run.after nodes)) := by
  have hvalid : InlineState.Valid cs ⟨enclosing, next, next, stop⟩ :=
    ⟨hs.on_cursor.reaches hnext.reaches, .refl _, hstop, hset⟩
  exact (h.onward hvalid hnext).bind fun run hrun => .ok (hrun.after nodes)

/-- What is passed over joins the text without a node. -/
theorem AlikeBehind.skip (h : AlikeBehind cs s read read') (hs : s.Valid cs) (hset : s.stop.Settled)
    {next : Cursor} (hnext : s.place.Before next) (hstop : next.Reaches s.stop) :
    Alike s.Gives (read ⟨s.enclosing, s.textStart, next, s.stop⟩)
      (read' ⟨s.enclosing, s.textStart, next, s.stop⟩) :=
  h.onward (t := ⟨s.enclosing, s.textStart, next, s.stop⟩)
    ⟨hs.on, hs.text.trans hnext.reaches, hstop, fun _ => hset⟩ hnext

/-- An element is read in two parts: the second one starts where the first one came to. -/
theorem AlikeBehind.element (h : AlikeBehind cs s read read') (hs : s.Valid cs) {tag : Tag}
    {next stop : Cursor} (hnext : s.place.Before next) (hstop : next.Reaches stop)
    (hset : stop.Settled) {error : ParseError} {nodes : InlineRun → Span → List Node} :
    Alike s.Gives
      (do
        let inner ← read ⟨some tag, next, next, stop⟩
        match inner.closing with
        | none => throw error
        | some closing =>
          let run ← read ⟨s.enclosing, inner.next, inner.next, inner.stop⟩
          return run.after (nodes inner closing))
      (do
        let inner ← read' ⟨some tag, next, next, stop⟩
        match inner.closing with
        | none => throw error
        | some closing =>
          let run ← read' ⟨s.enclosing, inner.next, inner.next, inner.stop⟩
          return run.after (nodes inner closing)) := by
  have hvalid : InlineState.Valid cs ⟨some tag, next, next, stop⟩ :=
    ⟨hs.on_cursor.reaches hnext.reaches, .refl _, hstop, fun _ => hset⟩
  refine (h _ hvalid hnext).bind fun inner hinner => ?_
  cases inner.closing with
  | none => exact .error
  | some closing =>
    exact h.node hs (hnext.trans_reaches hinner.next) hinner.ahead hinner.settled s.enclosing _

end Step

theorem inlineRound_advances (cs : List Char) (math : Bool) (scope : Scope) :
    Advances (InlineState.Valid cs) InlineState.Later InlineState.Gives (InlineState.round math scope) := by
  intro read read' s hs hlater
  have hlater : AlikeBehind cs s read read' := hlater
  simp only [InlineState.round, inlineRound]
  split
  · exact .ok ⟨.refl _, hs.ahead, hs.settled⟩
  next hlt =>
  have hset := hs.settled (by omega)
  obtain ⟨u, hu⟩ := hs.ahead
  obtain ⟨ch, u, rfl⟩ := List.exists_cons_of_ne_nil (hu.ne_nil (by omega))
  have hrest : s.place.rest = ch :: (u ++ s.stop.rest) := hu.rest
  have skip : ∀ {n : Nat}, 0 < n → n ≤ u.length + 1 → Alike s.Gives
      (read ⟨s.enclosing, s.textStart, s.place.drop n, s.stop⟩)
      (read' ⟨s.enclosing, s.textStart, s.place.drop n, s.stop⟩) := by
    intro n hpos hn
    obtain ⟨t, ht, hp, hstop⟩ := path_drop_of_le hu hpos (by simpa using hn)
    exact hlater.skip hs hset (hp.before ht) hstop
  rw [hrest]
  dsimp only
  cases markedKind? math ch with
  | some kind =>
    obtain ⟨next, t, hspan, ht, hp, hstop⟩ := markedSpan_ok hu
    rcases hspan with hspan | hspan
    · rw [hspan]
      exact hlater.node hs (hp.before ht) hstop (fun _ => hset) _ _
    · rw [hspan]
      exact hlater.skip hs hset (hp.before ht) hstop
  | none =>
    dsimp only
    split
    · -- An escape takes two characters; the end is not between them.
      by_cases hesc : ((u ++ s.stop.rest).head?.any isAsciiPunctuation) = true
      · have hpos := hset.length_pos_of_escaped hesc
        rw [if_pos hesc]
        exact skip (by omega) (by omega)
      · rw [if_neg hesc]
        exact skip (by omega) (by omega)
    split
    · next hbrace =>
      rw [beq_iff_eq.mp hbrace] at hrest
      refine Alike.bind_same fun close hclose => Alike.bind_same fun stop' hreach => ?_
      obtain ⟨body, -, -, hwhole⟩ := Script.closingBrace_body hclose hrest
      obtain ⟨hstop, hset', -⟩ := reach_ok hreach hwhole.reaches hs.ahead hset
      exact hlater.node hs (hwhole.before (by simp)) hstop (fun _ => hset') _ _
    split
    · refine Alike.bind_same fun found hread => Alike.bind_same fun stop' hreach => ?_
      obtain ⟨tag, next⟩ := found
      obtain ⟨t, ht, hp⟩ := Tag.path_read hread (by simp [hrest])
      obtain ⟨hstop, hset', -⟩ := reach_ok hreach hp.reaches hs.ahead hset
      dsimp only
      split
      · cases s.enclosing with
        | none => exact .error
        | some opening =>
          dsimp only
          split
          · exact .ok ⟨hp.reaches, hstop, fun _ => hset'⟩
          · exact .error
      split
      · exact hlater.node hs (hp.before ht) hstop (fun _ => hset') _ _
      · exact hlater.element hs (hp.before ht) hstop hset'
    · exact skip (by omega) (by omega)

end Mdx

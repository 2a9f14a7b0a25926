/-
The two parts of a generated text, told from its mapping alone: the bytes of the
source that it names, in order, and the characters that it does not map. The first
are the bytes of the copied spans (`sourceBytes_ofPieces`), whether or not entries
were joined; the second are the text of the literal pieces (`ownText_ofPieces`). A
text that is copied span behind span from its start has a single entry
(`ofPieces_straight`).
-/
import Mdx.Proofs.Generated

namespace Mdx

open Cursor

/-- The offsets of the bytes of a span, in order. -/
def Span.bytes (s : Span) : List Nat := List.range' s.start s.length

/-- The source bytes of a mapping, in the order in which they stand in the generated text. -/
def Mapping.sourceBytes (m : Mapping) : List Nat := m.entries.flatMap fun e => e.sourceSpan.bytes

/-- The characters from `offset` on that are not mapped. -/
def Mapping.unmappedFrom (m : Mapping) (offset : Nat) : List Char → List Char
  | [] => []
  | c :: cs =>
    let later := m.unmappedFrom (offset + c.utf8Size) cs
    if (m.toSource offset).isSome then later else c :: later

/-- What a generated text does not have from its source. -/
def GeneratedText.ownText (g : GeneratedText) : List Char := g.mapping.unmappedFrom 0 g.text

/-- The text of the pieces that are not copied. -/
def literalText (pieces : List Piece) : List Char :=
  pieces.flatMap fun
    | .literal t => t
    | .copied _ => []

@[simp] theorem literalText_nil : literalText [] = [] := rfl

@[simp] theorem literalText_literal (t : List Char) (ps : List Piece) :
    literalText (.literal t :: ps) = t ++ literalText ps := rfl

@[simp] theorem literalText_copied (s : Span) (ps : List Piece) :
    literalText (.copied s :: ps) = literalText ps := rfl

theorem literalText_append (ps qs : List Piece) : literalText (ps ++ qs) = literalText ps ++ literalText qs :=
  List.flatMap_append

/-! ## The bytes that are mapped -/

section Bytes

variable {s : Span} {spans : List Span}

theorem Span.mem_bytes {o : Nat} : o ∈ s.bytes ↔ s.contains o = true := by
  simp only [bytes, length, List.mem_range'_1, contains_iff]
  omega

theorem Span.bytes_join {t : Span} (hs : s.start ≤ s.stop) (ht : t.start ≤ t.stop) (h : s.stop = t.start) :
    Span.bytes ⟨s.start, t.stop⟩ = s.bytes ++ t.bytes := by
  simp only [bytes, length]
  rw [← h, ← Nat.add_sub_cancel' hs, Nat.add_sub_cancel_left, List.range'_append_1]
  congr 1
  omega

theorem mem_flatMap_bytes {o : Nat} : o ∈ spans.flatMap Span.bytes ↔ ∃ s ∈ spans, s.contains o = true := by
  simp only [List.mem_flatMap, Span.mem_bytes]

theorem flatMap_bytes_pairwise (h : spans.Pairwise fun s t => s.stop ≤ t.start) :
    (spans.flatMap Span.bytes).Pairwise (· < ·) := by
  refine List.pairwise_flatMap.mpr ⟨fun s _ => List.pairwise_lt_range' , h.imp fun hst x hx y hy => ?_⟩
  rw [Span.mem_bytes, Span.contains_iff] at hx hy
  omega

theorem sourceSpan_ordered (e : Entry) : e.sourceSpan.start ≤ e.sourceSpan.stop := Nat.le_add_right _ _

/-- Joining entries keeps their bytes in order. -/
theorem flatMap_coalesce (es : List Entry) : (coalesce es).flatMap (fun e => e.sourceSpan.bytes) =
    es.flatMap fun e => e.sourceSpan.bytes := by
  fun_induction coalesce es with
  | case1 => rfl
  | case2 => rfl
  | case3 e f es hcont ih =>
    have hmeet : e.sourceSpan.stop = f.sourceSpan.start := (Entry.continuedBy_iff.mp hcont).1
    rw [ih, List.flatMap_cons, Entry.sourceSpan_join hcont,
      Span.bytes_join (sourceSpan_ordered e) (sourceSpan_ordered f) hmeet, List.flatMap_cons, List.flatMap_cons,
      List.append_assoc]
  | case4 e f es _ ih =>
    rw [List.flatMap_cons, ih]
    rfl

theorem flatMap_filter_nonempty (es : List Entry) :
    (es.filter (0 < ·.length)).flatMap (fun e => e.sourceSpan.bytes) = es.flatMap fun e => e.sourceSpan.bytes := by
  induction es with
  | nil => rfl
  | cons e es ih =>
    by_cases he : 0 < e.length
    · rw [List.filter_cons_of_pos (by simpa using he), List.flatMap_cons, ih, List.flatMap_cons]
    · have hnone : e.sourceSpan.bytes = [] := by
        simp [Span.bytes, Span.length, Entry.sourceSpan, Span.ofLength]
        omega
      rw [List.filter_cons_of_neg (by simpa using he), ih, List.flatMap_cons, hnone, List.nil_append]

theorem sourceBytes_ofPieces {source : List Char} {pieces : List Piece}
    (h : ∀ s ∈ copiedSpans pieces, s.InText source) :
    (GeneratedText.ofPieces source pieces).mapping.sourceBytes = (copiedSpans pieces).flatMap Span.bytes := by
  rw [← map_sourceSpan_entriesFrom 0 h, List.flatMap_map]
  simp only [Mapping.sourceBytes, GeneratedText.ofPieces, Mapping.ofEntries]
  rw [flatMap_coalesce, flatMap_filter_nonempty]

end Bytes

/-! ## The characters that are not mapped -/

section Unmapped

variable {m : Mapping} {o : Nat} {t : List Char}

theorem unmappedFrom_append (m : Mapping) (o : Nat) (t u : List Char) :
    m.unmappedFrom o (t ++ u) = m.unmappedFrom o t ++ m.unmappedFrom (o + byteLength t) u := by
  induction t generalizing o with
  | nil => rfl
  | cons c t ih =>
    simp only [List.cons_append, Mapping.unmappedFrom, ih, byteLength_cons, Nat.add_assoc]
    split <;> simp

theorem unmappedFrom_eq_self (h : ∀ g, o ≤ g → g < o + byteLength t → (m.toSource g).isSome = false) :
    m.unmappedFrom o t = t := by
  induction t generalizing o with
  | nil => rfl
  | cons c t ih =>
    have hpos := c.utf8Size_pos
    rw [byteLength_cons] at h
    rw [Mapping.unmappedFrom, h o (Nat.le_refl o) (by omega), ih fun g hlo hhi => h g (by omega) (by omega)]
    simp

theorem unmappedFrom_eq_nil (h : ∀ g, o ≤ g → g < o + byteLength t → (m.toSource g).isSome = true) :
    m.unmappedFrom o t = [] := by
  induction t generalizing o with
  | nil => rfl
  | cons c t ih =>
    have hpos := c.utf8Size_pos
    rw [byteLength_cons] at h
    rw [Mapping.unmappedFrom, h o (Nat.le_refl o) (by omega), ih fun g hlo hhi => h g (by omega) (by omega)]
    simp

variable {source : List Char} {pieces : List Piece}

/-- From a place on, a mapping that maps there what the pieces do leaves out what is literal in them. -/
theorem unmappedFrom_pieces (hin : ∀ s ∈ copiedSpans pieces, s.InText source)
    (h : ∀ g, o ≤ g → ((m.toSource g).isSome = true ↔ ∃ s, Relates (entriesFrom source o pieces) s g)) :
    m.unmappedFrom o (pieces.flatMap (Piece.text source)) = literalText pieces := by
  induction pieces generalizing o with
  | nil => rfl
  | cons p ps ih =>
    rw [List.flatMap_cons, unmappedFrom_append]
    cases p with
    | literal t =>
      have hps : ∀ s ∈ copiedSpans ps, s.InText source := hin
      have hmapped : ∀ g, o ≤ g →
          ((m.toSource g).isSome = true ↔ ∃ s, Relates (entriesFrom source (o + byteLength t) ps) s g) := h
      have hfirst : m.unmappedFrom o t = t := by
        refine unmappedFrom_eq_self fun g hlo hhi => ?_
        rw [← Bool.not_eq_true, hmapped g hlo]
        intro hrelates
        obtain ⟨s, e, he, hrel⟩ := hrelates
        have := (ascending_entriesFrom (o + byteLength t) hps).1 e he
        have := Entry.relates_iff.mp hrel
        omega
      rw [literalText_literal, Piece.text, hfirst]
      exact congrArg (t ++ ·) (ih hps fun g hg => hmapped g (Nat.le_trans (Nat.le_add_right _ _) hg))
    | copied s =>
      obtain ⟨hs, hps⟩ := List.forall_mem_cons.mp hin
      have hlength : byteLength (Piece.text source (.copied s)) = s.length := hs.byteLength_slice
      rw [literalText_copied, hlength]
      have hfirst : m.unmappedFrom o (Piece.text source (.copied s)) = [] := by
        refine unmappedFrom_eq_nil fun g hlo hhi => (h g hlo).mpr ?_
        rw [hlength] at hhi
        exact ⟨s.start + (g - o), _, List.mem_cons_self, g - o, by simp only; omega, rfl, by simp only; omega⟩
      rw [hfirst, List.nil_append]
      refine ih hps fun g hg => (h g (by omega)).trans (exists_congr fun q => ?_)
      rw [entriesFrom_copied, relates_cons, hs.byteLength_slice]
      -- The bytes of this span stand before the place.
      refine or_iff_right fun hrel => ?_
      have := Entry.relates_iff.mp hrel
      simp only at this
      omega

theorem ownText_ofPieces (hin : ∀ s ∈ copiedSpans pieces, s.InText source)
    (hdisjoint : (copiedSpans pieces).Pairwise Span.Disjoint) :
    (GeneratedText.ofPieces source pieces).ownText = literalText pieces := by
  refine unmappedFrom_pieces hin fun g _ => ?_
  rw [Option.isSome_iff_exists]
  refine exists_congr fun s => ?_
  rw [Mapping.toSource_eq_some_iff (wellFormed_ofPieces hin hdisjoint)]
  exact Mapping.relates_ofEntries

end Unmapped

/-! ## Texts that are copied whole -/

/-- The pieces copy all that stands between two places, each from where the one before it stops. -/
inductive Straight : Cursor → List Piece → Cursor → Prop
  | nil (c : Cursor) : Straight c [] c
  | cons {c d e : Cursor} {t : List Char} {ps : List Piece} :
    c.Path t d → Straight d ps e → Straight c (.copied (c.spanTo d.offset) :: ps) e

section Straight

variable {source : List Char} {c d e : Cursor} {ps qs : List Piece}

theorem Straight.append (h : Straight c ps d) (h' : Straight d qs e) : Straight c (ps ++ qs) e := by
  induction h with
  | nil => exact h'
  | cons hpath _ ih => exact .cons hpath (ih h')

theorem Straight.path_text (h : Straight c ps e) (hc : c.On source) :
    c.Path (ps.flatMap (Piece.text source)) e := by
  induction h with
  | nil c => exact .refl c
  | cons hpath _ ih =>
    rw [List.flatMap_cons, Piece.text, hc.slice hpath]
    exact hpath.trans (ih (hc.reaches hpath.reaches))

/-- The entry of a copied span that is not empty, or none. -/
theorem entriesFrom_spanTo (hc : c.On source) {t : List Char} (hpath : c.Path t d) (ps : List Piece) :
    (entriesFrom source c.offset (.copied (c.spanTo d.offset) :: ps)).filter (0 < ·.length) =
      if c.offset < d.offset then
        ⟨c.offset, c.offset, d.offset - c.offset⟩ :: (entriesFrom source d.offset ps).filter (0 < ·.length)
      else (entriesFrom source c.offset ps).filter (0 < ·.length) := by
  have hle := hpath.le
  have hlength : (c.spanTo d.offset).length = d.offset - c.offset := rfl
  have hoffset : c.offset + byteLength (slice source (c.spanTo d.offset)) = d.offset := by
    rw [hc.slice hpath, hpath.offset]
  rw [entriesFrom_copied, hoffset, hlength]
  split
  · exact List.filter_cons_of_pos (decide_eq_true (by simp only; omega))
  · have heq : d.offset = c.offset := by omega
    rw [List.filter_cons_of_neg (by simp [heq]), heq]

/-- Behind an entry that ends where they start the pieces only make it longer. -/
theorem Straight.coalesce_cons (h : Straight c ps e) (hc : c.On source) {a : Nat} (ha : a ≤ c.offset) :
    coalesce (⟨a, a, c.offset - a⟩ :: (entriesFrom source c.offset ps).filter (0 < ·.length)) =
      [⟨a, a, e.offset - a⟩] := by
  induction h with
  | nil c => simp [entriesFrom, coalesce]
  | @cons c d e t ps hpath _ ih =>
    have hle := hpath.le
    have hlater := ih (hc.reaches hpath.reaches) (Nat.le_trans ha hle)
    rw [entriesFrom_spanTo hc hpath]
    split
    · have hmeets : Entry.continuedBy ⟨a, a, c.offset - a⟩ ⟨c.offset, c.offset, d.offset - c.offset⟩ = true :=
        Entry.continuedBy_iff.mpr (by simp only; omega)
      have hjoin : c.offset - a + (d.offset - c.offset) = d.offset - a := by omega
      rw [coalesce, if_pos hmeets, hjoin]
      exact hlater
    · have heq : d.offset = c.offset := by omega
      rwa [heq] at hlater

theorem Straight.coalesce_eq (h : Straight c ps e) (hc : c.On source) :
    coalesce ((entriesFrom source c.offset ps).filter (0 < ·.length)) =
      if c.offset < e.offset then [⟨c.offset, c.offset, e.offset - c.offset⟩] else [] := by
  induction h with
  | nil c => simp [entriesFrom, coalesce]
  | @cons c d e t ps hpath hrest ih =>
    have hd := hc.reaches hpath.reaches
    have hle := hpath.le
    have hbehind := (hrest.path_text hd).le
    rw [entriesFrom_spanTo hc hpath]
    split
    · rw [if_pos (by omega)]
      exact hrest.coalesce_cons hd hle
    · have heq : d.offset = c.offset := by omega
      have hlater := ih hd
      rwa [heq] at hlater

theorem ofPieces_straight (h : Straight (ofText source) ps (ofEnd source)) :
    GeneratedText.ofPieces source ps =
      ⟨source, ⟨if source = [] then [] else [⟨0, 0, byteLength source⟩]⟩⟩ := by
  have hc := on_ofText source
  have htext : ps.flatMap (Piece.text source) = source := by
    have := (h.path_text hc).rest
    simpa [ofText, ofEnd] using this.symm
  have hentries : coalesce ((entriesFrom source 0 ps).filter (0 < ·.length)) =
      if source = [] then [] else [⟨0, 0, byteLength source⟩] := by
    have hwhole := h.coalesce_eq hc
    by_cases hnil : source = []
    · rw [if_pos hnil]
      rwa [if_neg (by simp [hnil, ofText, ofEnd])] at hwhole
    · have hlt : (ofText source).offset < (ofEnd source).offset := byteLength_pos hnil
      rw [if_neg hnil]
      rwa [if_pos hlt] at hwhole
  rw [GeneratedText.ofPieces, htext, Mapping.ofEntries, hentries]

end Straight

end Mdx

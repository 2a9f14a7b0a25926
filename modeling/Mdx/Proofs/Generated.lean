/-
Texts made of pieces. If the copied spans stand between characters of the source
and share no byte, the mapping is faithful: each entry says truly what stands
where, no byte is in two entries, and the lookups go back and forth
(`faithful_ofPieces`). The bytes it maps are those of the copied spans
(`maps_ofPieces`).
-/
import Mdx.Generated
import Mdx.Proofs.Mapping

namespace Mdx

open Cursor

/-- The bytes of the source that the entry names stand in the text where it says. -/
structure Entry.Copies (source text : List Char) (e : Entry) : Prop where
  inSource : e.sourceSpan.InText source
  inText : e.generatedSpan.InText text
  slice_eq : slice text e.generatedSpan = slice source e.sourceSpan

/-- The mapping says truly which bytes of the source stand where in the text: no entry is empty, each
names the same characters on both sides, they follow each other in the text, no two share a byte of
the source, none continues the one before it, and the lookups are inverse to each other. -/
structure Mapping.Faithful (source text : List Char) (m : Mapping) : Prop where
  nonempty : ∀ e ∈ m.entries, 0 < e.length
  copies : ∀ e ∈ m.entries, e.Copies source text
  ascending : m.entries.Pairwise fun e f => e.generated + e.length ≤ f.generated
  disjoint : m.entries.Pairwise fun e f => e.sourceSpan.Disjoint f.sourceSpan
  joined : ∀ front e f back, m.entries = front ++ e :: f :: back → e.continuedBy f = false
  toSource_toGenerated : ∀ q g, m.toGenerated q = some g → m.toSource g = some q
  toGenerated_toSource : ∀ g q, m.toSource g = some q → m.toGenerated q = some g

/-- The spans that pieces copy, in order. -/
def copiedSpans (pieces : List Piece) : List Span :=
  pieces.filterMap fun
    | .literal _ => none
    | .copied s => some s

theorem copiedSpans_append (ps qs : List Piece) : copiedSpans (ps ++ qs) = copiedSpans ps ++ copiedSpans qs :=
  List.filterMap_append

theorem copiedSpans_cons (p : Piece) (ps : List Piece) :
    copiedSpans (p :: ps) = copiedSpans [p] ++ copiedSpans ps := copiedSpans_append [p] ps

@[simp] theorem copiedSpans_nil : copiedSpans [] = [] := rfl

@[simp] theorem copiedSpans_literal (t : List Char) (ps : List Piece) :
    copiedSpans (.literal t :: ps) = copiedSpans ps := rfl

@[simp] theorem copiedSpans_copied (s : Span) (ps : List Piece) :
    copiedSpans (.copied s :: ps) = s :: copiedSpans ps := rfl

variable {source : List Char}

/-- An entry that continues another copies what stands behind it. -/
theorem Entry.Copies.join {text : List Char} {e f : Entry} (he : e.Copies source text)
    (hf : f.Copies source text) (h : e.continuedBy f = true) :
    Entry.Copies source text ⟨e.source, e.generated, e.length + f.length⟩ := by
  obtain ⟨hs, hg⟩ := Entry.continuedBy_iff.mp h
  obtain ⟨hsource, hsliceSource⟩ := he.inSource.join hf.inSource hs
  obtain ⟨htext, hsliceText⟩ := he.inText.join hf.inText hg
  have hspanS := Entry.sourceSpan_join h
  have hspanG := Entry.generatedSpan_join h
  refine ⟨hspanS ▸ hsource, hspanG ▸ htext, ?_⟩
  rw [hspanS, hspanG, hsliceSource, hsliceText, he.slice_eq, hf.slice_eq]

theorem entriesFrom_literal (offset : Nat) (t : List Char) (ps : List Piece) :
    entriesFrom source offset (.literal t :: ps) = entriesFrom source (offset + byteLength t) ps := rfl

theorem entriesFrom_copied (offset : Nat) (s : Span) (ps : List Piece) :
    entriesFrom source offset (.copied s :: ps) =
      ⟨s.start, offset, s.length⟩ :: entriesFrom source (offset + byteLength (slice source s)) ps := rfl

section Pieces

variable {pieces : List Piece}

/-- The entry of a copied span that stands behind `before`. -/
theorem copies_of_copied {s : Span} (hs : s.InText source) (before after : List Char) :
    Entry.Copies source (before ++ slice source s ++ after) ⟨s.start, byteLength before, s.length⟩ := by
  have hordered := hs.ordered
  have hspan : Entry.sourceSpan ⟨s.start, byteLength before, s.length⟩ = s := by
    simp only [Entry.sourceSpan, Span.ofLength, Span.length]
    rw [Nat.add_sub_cancel' hordered]
  let a : Cursor := ⟨byteLength before, slice source s ++ after⟩
  let b : Cursor := ⟨byteLength before + s.length, after⟩
  have ha : a.On (before ++ slice source s ++ after) := ⟨before, by simp [a, ofText], by simp [a, ofText]⟩
  have hab : a.Path (slice source s) b := ⟨rfl, by simp [a, b, hs.byteLength_slice]⟩
  exact ⟨by rw [hspan]; exact hs, Span.inText_spanTo ha hab.reaches, by rw [hspan]; exact ha.slice hab⟩

theorem copies_entriesFrom (before : List Char) (h : ∀ s ∈ copiedSpans pieces, s.InText source) :
    ∀ e ∈ entriesFrom source (byteLength before) pieces,
      e.Copies source (before ++ pieces.flatMap (Piece.text source)) := by
  induction pieces generalizing before with
  | nil => simp [entriesFrom]
  | cons p ps ih =>
    have hlater := fun hps => ih (before ++ p.text source) hps
    rw [byteLength_append, List.append_assoc] at hlater
    rw [List.flatMap_cons]
    cases p with
    | literal t => exact hlater h
    | copied s =>
      rw [copiedSpans_copied, List.forall_mem_cons] at h
      rw [entriesFrom_copied]
      refine List.forall_mem_cons.mpr ⟨?_, hlater h.2⟩
      have hfirst := copies_of_copied h.1 before (ps.flatMap (Piece.text source))
      rwa [List.append_assoc] at hfirst

/-- Entries stand where their pieces do. -/
theorem ascending_entriesFrom (offset : Nat) (h : ∀ s ∈ copiedSpans pieces, s.InText source) :
    (∀ e ∈ entriesFrom source offset pieces, offset ≤ e.generated) ∧
      (entriesFrom source offset pieces).Pairwise fun e f => e.generated + e.length ≤ f.generated := by
  induction pieces generalizing offset with
  | nil => simp [entriesFrom]
  | cons p ps ih =>
    cases p with
    | literal t =>
      obtain ⟨hle, hpair⟩ := ih (offset + byteLength t) h
      exact ⟨fun e he => Nat.le_trans (Nat.le_add_right _ _) (hle e he), hpair⟩
    | copied s =>
      rw [copiedSpans_copied, List.forall_mem_cons] at h
      obtain ⟨hle, hpair⟩ := ih (offset + byteLength (slice source s)) h.2
      rw [h.1.byteLength_slice] at hle hpair
      rw [entriesFrom_copied, h.1.byteLength_slice]
      refine ⟨List.forall_mem_cons.mpr ⟨Nat.le_refl _, fun e he => ?_⟩, List.pairwise_cons.mpr ⟨hle, hpair⟩⟩
      exact Nat.le_trans (Nat.le_add_right _ _) (hle e he)

theorem map_sourceSpan_entriesFrom (offset : Nat) (h : ∀ s ∈ copiedSpans pieces, s.InText source) :
    (entriesFrom source offset pieces).map Entry.sourceSpan = copiedSpans pieces := by
  induction pieces generalizing offset with
  | nil => rfl
  | cons p ps ih =>
    cases p with
    | literal t => exact ih _ h
    | copied s =>
      rw [copiedSpans_copied, List.forall_mem_cons] at h
      rw [entriesFrom_copied, List.map_cons, ih _ h.2, copiedSpans_copied]
      have := h.1.ordered
      simp only [Entry.sourceSpan, Span.ofLength, Span.length]
      rw [Nat.add_sub_cancel' this]

/-- The mapping of pieces that copy no byte twice. -/
theorem wellFormed_ofPieces (h : ∀ s ∈ copiedSpans pieces, s.InText source)
    (hdisjoint : (copiedSpans pieces).Pairwise Span.Disjoint) :
    WellFormed (GeneratedText.ofPieces source pieces).mapping.entries := by
  refine Mapping.wellFormed_ofEntries (ascending_entriesFrom 0 h).2 ?_
  rw [← map_sourceSpan_entriesFrom 0 h] at hdisjoint
  exact List.pairwise_map.mp hdisjoint

theorem faithful_ofPieces (h : ∀ s ∈ copiedSpans pieces, s.InText source)
    (hdisjoint : (copiedSpans pieces).Pairwise Span.Disjoint) :
    (GeneratedText.ofPieces source pieces).mapping.Faithful source
      (GeneratedText.ofPieces source pieces).text := by
  have hwf := wellFormed_ofPieces h hdisjoint
  have hcopies := copies_entriesFrom [] h
  exact
    { nonempty := hwf.nonempty
      copies := forall_mem_coalesce (fun e f he hf => he.join hf)
        fun e he => hcopies e (List.mem_filter.mp he).1
      ascending := hwf.ascending
      disjoint := hwf.disjoint
      joined := fun front e f back heq => continuedBy_eq_false_of_coalesce heq
      toSource_toGenerated := fun q g => (Mapping.toGenerated_eq_some_iff_toSource hwf).mp
      toGenerated_toSource := fun g q => (Mapping.toGenerated_eq_some_iff_toSource hwf).mpr }

/-- A byte of the source has a place in the text if a copied span holds it. -/
theorem maps_ofPieces (h : ∀ s ∈ copiedSpans pieces, s.InText source)
    (hdisjoint : (copiedSpans pieces).Pairwise Span.Disjoint) {o : Nat} :
    ((GeneratedText.ofPieces source pieces).mapping.toGenerated o).isSome = true ↔
      ∃ s ∈ copiedSpans pieces, s.contains o = true := by
  rw [Option.isSome_iff_exists]
  simp only [Mapping.toGenerated_eq_some_iff (wellFormed_ofPieces h hdisjoint)]
  rw [← map_sourceSpan_entriesFrom 0 h]
  simp only [GeneratedText.ofPieces, Mapping.relates_ofEntries]
  simp only [Relates, List.mem_map]
  constructor
  · rintro ⟨g, e, he, hg⟩
    exact ⟨_, ⟨e, he, rfl⟩, Entry.contains_sourceSpan.mpr ⟨g, hg⟩⟩
  · rintro ⟨_, ⟨e, he, rfl⟩, ho⟩
    obtain ⟨g, hg⟩ := Entry.contains_sourceSpan.mp ho
    exact ⟨g, e, he, hg⟩

end Pieces

end Mdx

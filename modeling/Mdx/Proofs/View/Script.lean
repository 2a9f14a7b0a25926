/-
The script view, read as a text: the pragma, the shadow of the module code, the
head of the component, the shadow of the embedded code and the tail. The kept
spans are copied from the document and not from the shadows, and it makes no
difference, since the shadow of a kept span is the span (`text_view`).

A shadow stands byte for byte under the document, so a kept byte moves by the
bytes before the shadow and by nothing else (`entriesFrom_shadowPieces`), and the
head has one length whether or not the component is exported.
-/
import Mdx.Proofs.Shadow
import Mdx.Proofs.View.Faithful

namespace Mdx

open Cursor

/-! ## Spans along a text -/

/-- The spans stand one behind the other from the place `c` on. -/
inductive Strung : Cursor → List Span → Prop
  | nil (c : Cursor) : Strung c []
  | cons {c a b : Cursor} {gap text : List Char} {spans : List Span} :
    c.Path gap a → a.Path text b → Strung b spans → Strung c (a.spanTo b.offset :: spans)

variable {source : List Char} {spans kept : List Span}

theorem strung_of_inText {c : Cursor} (hc : c.On source) (hin : ∀ s ∈ spans, s.InText source)
    (hapart : spans.Pairwise fun s t => s.stop < t.start) (hle : ∀ s ∈ spans, c.offset ≤ s.start) :
    Strung c spans := by
  induction spans generalizing c with
  | nil => exact .nil c
  | cons s spans ih =>
    obtain ⟨hs, hspans⟩ := List.forall_mem_cons.mp hin
    obtain ⟨hbehind, hrest⟩ := List.pairwise_cons.mp hapart
    obtain ⟨a, b, text, ha, htext, rfl⟩ := hs.path
    obtain ⟨gap, hgap⟩ := hc.reaches_of_le ha (hle _ List.mem_cons_self)
    refine .cons hgap htext (ih (ha.reaches htext.reaches) hspans hrest fun t ht => ?_)
    exact Nat.le_of_lt (hbehind t ht)

/-- The spans of a set are strung along a text that they stand in. -/
theorem strung_merged {set : RangeSet} (hset : set.Sorted) (hin : ∀ s ∈ set.ranges, s.InText source) :
    Strung (.ofText source) set.merged :=
  strung_of_inText (on_ofText source) (RangeSet.inText_merged hin) (RangeSet.separated_merged hset).apart
    fun s _ => Nat.zero_le s.start

/-! ## The pieces of a shadow -/

namespace Component

/-- The first copied span cuts the shadow where it cuts the document. -/
theorem shadowPieces_cons {c a b : Cursor} {gap text : List Char} (hgap : c.Path gap a)
    (htext : a.Path text b) :
    shadowPieces c.offset (c.under kept).rest (a.spanTo b.offset :: spans) =
      .literal (shadowFrom kept c.offset gap) :: .copied (a.spanTo b.offset) ::
        shadowPieces b.offset (b.under kept).rest spans := by
  have hu := hgap.under kept
  have htake : takeBytes (c.under kept).rest (a.offset - c.offset) = _ := hu.upTo
  have hdrop : dropBytes (c.under kept).rest (b.offset - c.offset) = _ :=
    (hu.trans (htext.under kept)).dropBytes
  simp only [shadowPieces, spanTo]
  rw [htake, hdrop]

/-- The copied spans are what the shadow has there, so the pieces are the shadow. -/
theorem text_shadowPieces {c : Cursor} (h : Strung c spans) (hc : c.On source)
    (hkept : ∀ s ∈ spans, s ∈ kept) :
    (shadowPieces c.offset (c.under kept).rest spans).flatMap (Piece.text source) =
      (c.under kept).rest := by
  induction h with
  | nil c => simp [shadowPieces, Piece.text]
  | @cons c a b gap text spans hgap htext _ ih =>
    obtain ⟨hfirst, hkept⟩ := List.forall_mem_cons.mp hkept
    have ha := hc.reaches hgap.reaches
    have hself : shadowFrom kept a.offset text = text :=
      shadowFrom_eq_self hfirst (Nat.le_refl _) (Nat.le_of_eq htext.offset.symm)
    have hpath := ((hgap.under kept).trans (htext.under kept)).rest
    rw [hself, List.append_assoc] at hpath
    rw [shadowPieces_cons hgap htext, List.flatMap_cons, List.flatMap_cons,
      ih (ha.reaches htext.reaches) hkept, hpath]
    simp only [Piece.text]
    rw [ha.slice htext]

/-- The entry of a span that stands `n` bytes further on. -/
def moved (n : Nat) (s : Span) : Entry := ⟨s.start, n + s.start, s.length⟩

/-- Each copied span of a shadow that starts at `n` stands `n` bytes further on. -/
theorem entriesFrom_shadowPieces {c : Cursor} (h : Strung c spans) (hc : c.On source) (kept : List Span)
    (n : Nat) (ps : List Piece) :
    entriesFrom source (n + c.offset) (shadowPieces c.offset (c.under kept).rest spans ++ ps) =
      spans.map (moved n) ++ entriesFrom source (n + byteLength source) ps := by
  induction h with
  | nil c =>
    have hend : byteLength source = c.offset + byteLength c.rest := hc.path_ofEnd.offset
    rw [shadowPieces, List.singleton_append, entriesFrom_literal, under, byteLength_shadowFrom, hend,
      Nat.add_assoc]
    rfl
  | @cons c a b gap text spans hgap htext _ ih =>
    have ha := hc.reaches hgap.reaches
    have hgapLength : n + c.offset + byteLength (shadowFrom kept c.offset gap) = n + a.offset := by
      rw [byteLength_shadowFrom, hgap.offset, Nat.add_assoc]
    have htextLength : n + a.offset + byteLength (slice source (a.spanTo b.offset)) = n + b.offset := by
      rw [ha.slice htext, htext.offset, Nat.add_assoc]
    rw [shadowPieces_cons hgap htext, List.cons_append, List.cons_append, entriesFrom_literal, hgapLength,
      entriesFrom_copied, htextLength, ih (ha.reaches htext.reaches)]
    rfl

theorem relates_moved {n s g : Nat} : Relates (spans.map (moved n)) s g ↔
    (∃ t ∈ spans, t.contains s = true) ∧ g = n + s := by
  have hmoved : ∀ t : Span, (moved n t).Relates s g ↔ t.contains s = true ∧ g = n + s := by
    intro t
    rw [Entry.relates_iff, Span.contains_iff]
    simp only [moved, Span.length]
    omega
  constructor
  · rintro ⟨e, he, hrel⟩
    obtain ⟨t, ht, rfl⟩ := List.mem_map.mp he
    obtain ⟨hcontains, hg⟩ := (hmoved t).mp hrel
    exact ⟨⟨t, ht, hcontains⟩, hg⟩
  · rintro ⟨⟨t, ht, hcontains⟩, hg⟩
    exact ⟨_, List.mem_map_of_mem ht, (hmoved t).mpr ⟨hcontains, hg⟩⟩

/-! ## The view -/

/-- The head is as long without the export as with it. -/
theorem byteLength_head (exported : Bool) :
    byteLength (head exported).toList = byteLength (head true).toList := by
  have hwords : ∀ (before behind : String) {w v : String}, byteLength w.toList = byteLength v.toList →
      byteLength (before ++ w ++ behind).toList = byteLength (before ++ v ++ behind).toList := by
    intro before behind w v h
    simp only [String.toList_append, byteLength_append, h]
  cases exported with
  | true => rfl
  | false =>
    refine hwords _ _ ?_
    rw [if_neg Bool.false_ne_true, String.toList_ofList, byteLength_replicate_space]
    decide

/-- Where the shadow of the embedded code starts: behind the pragma, as many bytes as the document has,
and the head. -/
def codeStart (checkJs : Bool) (jsxImportSource : String) (source : List Char) : Nat :=
  byteLength (pragma checkJs jsxImportSource).toList + byteLength source + byteLength (head true).toList

section View

variable {modules code : RangeSet} {checkJs : Bool} {jsxImportSource : String}

/-- The text of the view is the two shadows with the component around the second. -/
theorem text_view (hmodules : Strung (.ofText source) modules.merged)
    (hcode : Strung (.ofText source) code.merged) :
    (view checkJs jsxImportSource source modules code).text =
      (pragma checkJs jsxImportSource).toList ++ shadow modules source ++
        (head !(modules.ranges.any fun s => isDefaultExport (slice source s))).toList ++
        shadow code source ++ tail.toList := by
  have hm := text_shadowPieces hmodules (on_ofText source) fun _ hs => hs
  have hc := text_shadowPieces hcode (on_ofText source) fun _ hs => hs
  simp only [under, ofText] at hm hc
  simp only [view, pieces, GeneratedText.ofPieces, List.flatMap_append, List.flatMap_singleton, Piece.text,
    shadow, hm, hc]

theorem entries_pieces (hmodules : Strung (.ofText source) modules.merged)
    (hcode : Strung (.ofText source) code.merged) :
    entriesFrom source 0 (pieces checkJs jsxImportSource source modules code) =
      modules.merged.map (moved (byteLength (pragma checkJs jsxImportSource).toList)) ++
        code.merged.map (moved (codeStart checkJs jsxImportSource source)) := by
  have hm := entriesFrom_shadowPieces hmodules (on_ofText source) modules.merged
  have hc := entriesFrom_shadowPieces hcode (on_ofText source) code.merged
  simp only [under, ofText, Nat.add_zero] at hm hc
  simp only [pieces, List.append_assoc, List.cons_append, List.nil_append, shadow]
  rw [entriesFrom_literal, Nat.zero_add, hm, entriesFrom_literal, byteLength_head, hc, entriesFrom_literal,
    entriesFrom, List.append_nil, codeStart]

end View

end Component

/-- Module code moves by the pragma, embedded code by the document and the head as well. -/
theorem Regions.Sound.toGenerated_script {r : Regions} (h : r.Sound source) (checkJs : Bool)
    (jsxImportSource : String) (s : Nat) :
    (Component.view checkJs jsxImportSource source r.modules r.code).mapping.toGenerated s =
      if r.modules.contains s then
        some (byteLength (Component.pragma checkJs jsxImportSource).toList + s)
      else if r.code.contains s then
        some (Component.codeStart checkJs jsxImportSource source + s)
      else none := by
  have hcopied := copiedSpans_component checkJs jsxImportSource source r.modules r.code
  have hin := h.script_inText
  have hpair := h.script_pairwise
  rw [← hcopied] at hin hpair
  refine Option.ext fun g => ?_
  rw [Component.view, Mapping.toGenerated_eq_some_iff (wellFormed_ofPieces hin hpair), GeneratedText.ofPieces,
    Mapping.relates_ofEntries, Component.entries_pieces (strung_merged h.modules_sorted h.modules_inText)
      (strung_merged h.code_sorted h.code_inText), relates_append, Component.relates_moved,
    Component.relates_moved, RangeSet.exists_merged_iff, RangeSet.exists_merged_iff]
  have hapart := h.modules_code s
  split
  · next hm => simp [hm, hapart hm, eq_comm]
  · next hm =>
    split
    · next hc => simp [hm, hc, eq_comm]
    · next hc => simp [hm, hc]

/-- The script view as a text: the pragma, the shadow of the module code, the head of the component,
the shadow of the embedded code and the tail. A byte of module code moves by the length of the pragma,
one of embedded code by the lengths of the document and of the exported head as well, also if the
component is not exported, and no other byte has a place. -/
structure ScriptLayout (options : CompileOptions) (source : List Char) (r : Regions)
    (script : VirtualDocument) : Prop where
  language : script.language = .script
  text : script.text =
    (Component.pragma options.checkJs options.jsxImportSource).toList ++ shadow r.modules source ++
      (Component.head !(r.modules.ranges.any fun s => Component.isDefaultExport (slice source s))).toList ++
      shadow r.code source ++ Component.tail.toList
  toGenerated : ∀ s, script.mapping.toGenerated s =
    if r.modules.contains s then
      some (byteLength (Component.pragma options.checkJs options.jsxImportSource).toList + s)
    else if r.code.contains s then
      some (Component.codeStart options.checkJs options.jsxImportSource source + s)
    else none

/-- **The script view is laid out by two shadows.** The first view of a document that parses is the
script view of its regions, which shows each of them at a constant distance. -/
theorem compile_script_layout {options : CompileOptions} {source : List Char} {root : Node}
    (h : (compile options source).tree = .ok root) : ∃ script rest,
      (compile options source).documents = ⟨script, []⟩ :: rest ∧
        ScriptLayout options source (Regions.ofTree root) script := by
  have hparse := parse_of_tree h
  have hsound := sound_of_parse hparse
  have hdocuments := congrArg Compilation.documents (compile_of_parse hparse)
  refine ⟨_, _, hdocuments, rfl, ?_, hsound.toGenerated_script _ _⟩
  exact Component.text_view (strung_merged hsound.modules_sorted hsound.modules_inText)
    (strung_merged hsound.code_sorted hsound.code_inText)

/-- A default export, and code behind a character of two bytes. -/
theorem compile_script_layout_export : ∃ root,
    (compile {} "export default a\n\né \x7bb\x7d".toList).tree = .ok root ∧ ∃ script rest,
      (compile {} "export default a\n\né \x7bb\x7d".toList).documents = ⟨script, []⟩ :: rest ∧
        ScriptLayout {} "export default a\n\né \x7bb\x7d".toList (Regions.ofTree root) script := by
  have hparses : (compile {} "export default a\n\né \x7bb\x7d".toList).tree.toOption.isSome = true := by
    decide +kernel
  obtain ⟨root, htree⟩ := exists_ok hparses
  exact ⟨root, htree, compile_script_layout htree⟩

end Mdx

/-
The mappings of a compiled document are faithful, in every view and whether or
not the document parses. A view copies spans of the document that stand between
characters and share no byte: the script view the module code and then the
embedded code, the prose view what is neither hidden nor indent, the view of
front matter its value.
-/
import Mdx.Proofs.Regions.Parsed
import Mdx.Proofs.View.Prose
import Mdx.Virtual

namespace Mdx

variable {source : List Char}

/-! ## The script view -/

theorem copiedSpans_shadowPieces (offset : Nat) (shadow : List Char) (spans : List Span) :
    copiedSpans (Component.shadowPieces offset shadow spans) = spans := by
  induction spans generalizing offset shadow with
  | nil => rfl
  | cons s spans ih => rw [Component.shadowPieces, copiedSpans_literal, copiedSpans_copied, ih]

/-- The script view copies the module code and then the embedded code. -/
theorem copiedSpans_component (checkJs : Bool) (jsxImportSource : String) (source : List Char)
    (modules code : RangeSet) :
    copiedSpans (Component.pieces checkJs jsxImportSource source modules code) =
      modules.merged ++ code.merged := by
  simp only [Component.pieces, copiedSpans_append, copiedSpans_shadowPieces]
  simp

variable {r : Regions}

theorem Regions.Sound.script_inText (h : r.Sound source) : ∀ s ∈ r.modules.merged ++ r.code.merged,
    s.InText source :=
  List.forall_mem_append.mpr
    ⟨RangeSet.inText_merged h.modules_inText, RangeSet.inText_merged h.code_inText⟩

/-- The two sweeps of the script view have no byte in common. -/
theorem Regions.Sound.script_pairwise (h : r.Sound source) :
    (r.modules.merged ++ r.code.merged).Pairwise Span.Disjoint := by
  refine List.pairwise_append.mpr
    ⟨RangeSet.merged_pairwise h.modules_sorted, RangeSet.merged_pairwise h.code_sorted, ?_⟩
  intro s hs t ht o ho
  have hmodules : r.modules.contains o = true := RangeSet.exists_merged_iff.mp ⟨s, hs, ho.1⟩
  have hcode : r.code.contains o = true := RangeSet.exists_merged_iff.mp ⟨t, ht, ho.2⟩
  rw [h.modules_code o hmodules] at hcode
  cases hcode

/-! ## The prose view -/

theorem Regions.Sound.shown_prose (h : r.Sound source) : Shown source r.nonProse.merged (.ofText source)
    (.ofEnd source) (copiedSpans (Prose.pieces source r.nonProse r.content)) :=
  Prose.shown_pieces (RangeSet.inText_merged h.nonProse_inText)
    (RangeSet.separated_merged r.nonProse_sorted).apart r.content

theorem Shown.pairwise {hidden copied : List Span} {c d : Cursor} (h : Shown source hidden c d copied) :
    copied.Pairwise Span.Disjoint :=
  h.ascending.imp Span.disjoint_of_le

/-! ## All views -/

/-- The mapping of a text of which nothing is copied. -/
theorem faithful_empty (text : List Char) : Mapping.empty.Faithful source text where
  nonempty := by simp [Mapping.empty]
  copies := by simp [Mapping.empty]
  ascending := .nil
  disjoint := .nil
  joined := by simp [Mapping.empty]
  toSource_toGenerated := by simp [Mapping.toGenerated, Mapping.bySource, Mapping.empty, Mapping.carry]
  toGenerated_toSource := by simp [Mapping.toSource, Mapping.empty, Mapping.carry]

theorem faithful_frontmatterDocument {f : FrontmatterRegion} (h : f.value.InText source) :
    (frontmatterDocument source f).mapping.Faithful source (frontmatterDocument source f).text :=
  faithful_ofPieces (by simpa using h) (by simp)

theorem faithful_viewsOf (options : CompileOptions) {root : Node} (h : (Regions.ofTree root).Sound source) :
    ∀ d ∈ (viewsOf options source root).flatMap DocumentGroup.all, d.mapping.Faithful source d.text := by
  intro d hd
  simp only [viewsOf, DocumentGroup.all, List.flatMap_cons, List.flatMap_nil, List.append_nil,
    List.mem_append, List.mem_cons, List.not_mem_nil, or_false, List.mem_map] at hd
  rcases hd with rfl | rfl | ⟨f, hf, rfl⟩
  · refine faithful_ofPieces ?_ ?_ <;> rw [copiedSpans_component]
    · exact h.script_inText
    · exact h.script_pairwise
  · exact faithful_ofPieces h.shown_prose.inText h.shown_prose.pairwise
  · exact faithful_frontmatterDocument (h.value_inText f hf).1

theorem compile_of_parse {options : CompileOptions} {root : Node}
    (h : parse options.parseOptions source = .ok root) :
    compile options source = ⟨.ok root, viewsOf options source root⟩ := by
  rw [compile, h]

theorem compile_of_error {options : CompileOptions} {e : ParseError}
    (h : parse options.parseOptions source = .error e) :
    compile options source = ⟨.error e, fallbackViews source⟩ := by
  rw [compile, h]

theorem parse_of_tree {options : CompileOptions} {root : Node}
    (h : (compile options source).tree = .ok root) : parse options.parseOptions source = .ok root := by
  unfold compile at h
  split at h
  · next heq => rwa [heq]
  · cases h

/-- **Mappings are faithful.** In every view of a document, embedded ones included, each entry of the
mapping names the same characters in the document and in the view, no byte is in two entries, and
the lookups in both directions are inverse to each other. -/
theorem compile_faithful (options : CompileOptions) (source : List Char) :
    ∀ d ∈ (compile options source).allDocuments, d.mapping.Faithful source d.text := by
  unfold compile
  split
  · next root hparse => exact faithful_viewsOf options (sound_of_parse hparse)
  · intro d hd
    simp only [Compilation.allDocuments, fallbackViews, DocumentGroup.all, List.flatMap_cons,
      List.flatMap_nil, List.append_nil, List.mem_append, List.mem_singleton] at hd
    rcases hd with rfl | rfl
    · exact faithful_empty _
    · exact faithful_empty _

/-- The prose around an expression, with a placeholder in between. -/
theorem compile_faithful_prose :
    ⟨"md", .markdown, " a <!----> c".toList, ⟨[⟨0, 0, 3⟩, ⟨6, 10, 2⟩]⟩⟩ ∈
        (compile {} " a \x7bb\x7d c".toList).allDocuments ∧
      Mapping.Faithful " a \x7bb\x7d c".toList " a <!----> c".toList ⟨[⟨0, 0, 3⟩, ⟨6, 10, 2⟩]⟩ := by
  have hmem : ⟨"md", .markdown, " a <!----> c".toList, ⟨[⟨0, 0, 3⟩, ⟨6, 10, 2⟩]⟩⟩ ∈
      (compile {} " a \x7bb\x7d c".toList).allDocuments := by
    decide +kernel
  exact ⟨hmem, compile_faithful {} _ _ hmem⟩

end Mdx

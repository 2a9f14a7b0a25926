/-
Every visible byte of a document that parses goes to one place: the script view,
the prose view or the front matter. The script view maps the bytes of module
code and embedded code, the prose view every visible byte that is in no region,
and the view of front matter the bytes of its value; the regions share no byte,
so no byte goes to two places, and none is lost.
-/
import Mdx.Proofs.View.Faithful

namespace Mdx

open Cursor

/-- The byte of the source at `o` has a place in the view. -/
def VirtualDocument.maps (d : VirtualDocument) (o : Nat) : Bool := (d.mapping.toGenerated o).isSome

/-- The byte at `o` lies in a front matter block with this dialect and value. -/
def FrontmatterAt (root : Node) (o : Nat) (dialect : Dialect) (value : Span) : Prop :=
  ∃ n ∈ root.preorder, ∃ s, n.kind = .frontmatter dialect value ∧ n.span = some s ∧ s.contains o = true

/-- The one place where a byte goes. In front matter it is mapped if it is in the block's value, and
only by the view of that block. -/
inductive Routed (root : Node) (script markdown : VirtualDocument) (embedded : List VirtualDocument)
    (o : Nat) : Prop
  | toScript : script.maps o = true → markdown.maps o = false → (∀ d ∈ embedded, d.maps o = false) →
    (∀ dialect value, ¬ FrontmatterAt root o dialect value) → Routed root script markdown embedded o
  | toMarkdown : script.maps o = false → markdown.maps o = true → (∀ d ∈ embedded, d.maps o = false) →
    (∀ dialect value, ¬ FrontmatterAt root o dialect value) → Routed root script markdown embedded o
  | toFrontmatter {dialect : Dialect} {value : Span} {front back : List VirtualDocument}
    {d : VirtualDocument} : FrontmatterAt root o dialect value → script.maps o = false →
    markdown.maps o = false → embedded = front ++ d :: back → d.language = dialect.language →
    d.maps o = value.contains o → (∀ d' ∈ front ++ back, d'.maps o = false) →
    Routed root script markdown embedded o

variable {source : List Char} {r : Regions} {o : Nat}

namespace Regions.Sound

/-- The script view maps the bytes of module code and of embedded code. -/
theorem script_maps (h : r.Sound source) (checkJs : Bool) (jsxImportSource : String) :
    ((Component.view checkJs jsxImportSource source r.modules r.code).mapping.toGenerated o).isSome = true ↔
      r.modules.contains o = true ∨ r.code.contains o = true := by
  have hcopied := copiedSpans_component checkJs jsxImportSource source r.modules r.code
  have hin := h.script_inText
  have hpair := h.script_pairwise
  rw [← hcopied] at hin hpair
  rw [Component.view, maps_ofPieces hin hpair, hcopied]
  simp only [List.mem_append, or_and_right, exists_or, RangeSet.exists_merged_iff]

/-- The prose view maps no byte of another region. -/
theorem prose_maps_nonProse (h : r.Sound source) (ho : r.nonProse.contains o = true) :
    ((Prose.view source r.nonProse r.content).mapping.toGenerated o).isSome = false := by
  have hshown := h.shown_prose
  rw [← Bool.not_eq_true, Prose.view, maps_ofPieces hshown.inText hshown.pairwise]
  rintro ⟨s, hs, hso⟩
  obtain ⟨t, ht, hto⟩ := RangeSet.exists_merged_iff.mpr ho
  exact hshown.avoids s hs t ht o ⟨hso, hto⟩

/-- The prose view maps every byte of a visible character that is in no other region. -/
theorem prose_maps (h : r.Sound source) {p : Nat} {ch : Char} (hshows : ShowsAt source p ch) (hlo : p ≤ o)
    (hhi : o < p + ch.utf8Size) (ho : r.nonProse.contains o = false) :
    ((Prose.view source r.nonProse r.content).mapping.toGenerated o).isSome = true := by
  have hshown := h.shown_prose
  have hin := RangeSet.inText_merged h.nonProse_inText
  -- A hidden span holds all of the character or none of it.
  have hfree : ∀ s ∈ r.nonProse.merged, s.contains p = false := by
    intro s hs
    rw [← Bool.not_eq_true]
    intro hp
    have hso := Span.contains_of_holdsChar ((hin s hs).holdsChar hshows.stands hp) hlo hhi
    rw [RangeSet.exists_merged_iff.mp ⟨s, hs, hso⟩] at ho
    cases ho
  obtain ⟨s, hs, hholds⟩ := hshown.keeps p ch hshows (Nat.zero_le p) hshows.lt hfree
  rw [Prose.view, maps_ofPieces hshown.inText hshown.pairwise]
  exact ⟨s, hs, Span.contains_of_holdsChar hholds hlo hhi⟩

end Regions.Sound

/-- The view of front matter maps the bytes of its value. -/
theorem frontmatterDocument_maps {f : FrontmatterRegion} (h : f.value.InText source) :
    (frontmatterDocument source f).maps o = f.value.contains o := by
  have hin : ∀ s ∈ copiedSpans [.copied f.value], s.InText source := by simpa using h
  have hmaps : (frontmatterDocument source f).maps o = true ↔ _ := maps_ofPieces hin (by simp)
  rw [Bool.eq_iff_iff, hmaps]
  simp

/-! ## Where a byte goes -/

section Routes

variable {root : Node}

theorem frontmatterAt_iff (h : ∀ m ∈ root.preorder, Placed source m) {dialect : Dialect} {value : Span} :
    FrontmatterAt root o dialect value ↔
      ∃ s, ⟨dialect, s, value⟩ ∈ (Regions.ofTree root).frontmatter ∧ s.contains o = true := by
  simp only [mem_frontmatter_ofTree h, FrontmatterAt]
  constructor
  · rintro ⟨n, hn, s, hkind, hspan, ho⟩
    exact ⟨s, ⟨n, hn, hkind, hspan⟩, ho⟩
  · rintro ⟨s, ⟨n, hn, hkind, hspan⟩, ho⟩
    exact ⟨n, hn, s, hkind, hspan, ho⟩

namespace Regions.Sound

/-- Outside of front matter its views map nothing. -/
theorem embedded_maps (h : r.Sound source) (ho : ∀ f ∈ r.frontmatter, f.span.contains o = false) :
    ∀ d ∈ r.frontmatter.map (frontmatterDocument source), d.maps o = false := by
  intro d hd
  obtain ⟨f, hf, rfl⟩ := List.mem_map.mp hd
  obtain ⟨hin, hwithin⟩ := h.value_inText f hf
  rw [frontmatterDocument_maps hin, ← Bool.not_eq_true]
  intro hvalue
  have := hwithin.contains hvalue
  rw [ho f hf] at this
  cases this

/-- In front matter only the view of that block maps a byte. -/
theorem embedded_maps_frontmatter (h : r.Sound source) {f : FrontmatterRegion} (hf : f ∈ r.frontmatter)
    (ho : f.span.contains o = true) : ∃ front back,
      r.frontmatter.map (frontmatterDocument source) = front ++ frontmatterDocument source f :: back ∧
        ∀ d ∈ front ++ back, d.maps o = false := by
  obtain ⟨front, back, heq⟩ := List.append_of_mem hf
  refine ⟨front.map (frontmatterDocument source), back.map (frontmatterDocument source), by simp [heq], ?_⟩
  have hapart := h.frontmatter_apart
  rw [heq] at hapart
  obtain ⟨-, hfback, hcross⟩ := List.pairwise_append.mp hapart
  have hother : ∀ g ∈ front ++ back, g.span.Disjoint f.span := by
    refine List.forall_mem_append.mpr ⟨fun g hg => hcross g hg f (by simp), fun g hg => ?_⟩
    exact ((List.pairwise_cons.mp hfback).1 g hg).symm
  intro d hd
  rw [← List.map_append] at hd
  obtain ⟨g, hg, rfl⟩ := List.mem_map.mp hd
  have hgr : g ∈ r.frontmatter := by
    rw [heq]
    rcases List.mem_append.mp hg with hg | hg <;> simp [hg]
  obtain ⟨hin, hwithin⟩ := h.value_inText g hgr
  rw [frontmatterDocument_maps hin, ← Bool.not_eq_true]
  exact fun hvalue => hother g hg o ⟨hwithin.contains hvalue, ho⟩

end Regions.Sound

/-- A byte of a visible character goes to one of the views of the regions. -/
theorem Regions.Sound.routed (h : r.Sound source)
    (hroot : ∀ dialect value, FrontmatterAt root o dialect value ↔
      ∃ s, ⟨dialect, s, value⟩ ∈ r.frontmatter ∧ s.contains o = true)
    {p : Nat} {ch : Char} (hshows : ShowsAt source p ch) (hlo : p ≤ o) (hhi : o < p + ch.utf8Size)
    (checkJs : Bool) (jsxImportSource : String) :
    Routed root (.ofGenerated "jsx" .script (Component.view checkJs jsxImportSource source r.modules r.code))
      (.ofGenerated "md" .markdown (Prose.view source r.nonProse r.content))
      (r.frontmatter.map (frontmatterDocument source)) o := by
  have hscript := h.script_maps (o := o) checkJs jsxImportSource
  have hnonProse := h.contains_nonProse (o := o)
  by_cases hfront : ∃ f ∈ r.frontmatter, f.span.contains o = true
  · obtain ⟨f, hf, ho⟩ := hfront
    obtain ⟨front, back, heq, hother⟩ := h.embedded_maps_frontmatter hf ho
    refine .toFrontmatter ((hroot _ _).mpr ⟨f.span, hf, ho⟩) ?_ ?_ heq rfl
      (frontmatterDocument_maps (h.value_inText f hf).1) hother
    · refine Bool.eq_false_iff.mpr fun hmaps => ?_
      rcases hscript.mp hmaps with hm | hc
      · rw [h.frontmatter_modules f hf o ho] at hm
        cases hm
      · rw [h.frontmatter_code f hf o ho] at hc
        cases hc
    · exact h.prose_maps_nonProse (hnonProse.mpr (.inr (.inr ⟨f, hf, ho⟩)))
  · have hnone : ∀ f ∈ r.frontmatter, f.span.contains o = false :=
      fun f hf => Bool.eq_false_iff.mpr fun ho => hfront ⟨f, hf, ho⟩
    have hnot : ∀ dialect value, ¬ FrontmatterAt root o dialect value := by
      intro dialect value hat
      obtain ⟨s, hs, ho⟩ := (hroot dialect value).mp hat
      exact hfront ⟨_, hs, ho⟩
    by_cases hcode : r.modules.contains o = true ∨ r.code.contains o = true
    · exact .toScript (hscript.mpr hcode) (h.prose_maps_nonProse (hnonProse.mpr (hcode.imp_right .inl)))
        (h.embedded_maps hnone) hnot
    · have hprose : r.nonProse.contains o = false := by
        refine Bool.eq_false_iff.mpr fun hcontains => ?_
        rcases hnonProse.mp hcontains with hm | hc | hf
        · exact hcode (.inl hm)
        · exact hcode (.inr hc)
        · exact hfront hf
      exact .toMarkdown (Bool.eq_false_iff.mpr fun hmaps => hcode (hscript.mp hmaps))
        (h.prose_maps hshows hlo hhi hprose) (h.embedded_maps hnone) hnot

end Routes

/-- **Every visible byte goes to one place.** A document that parses has a script view and a markdown
view, with views of front matter embedded in the second, and each byte of a character that is not
blank is mapped by exactly one of the two or lies in front matter. -/
theorem compile_routes {options : CompileOptions} {source : List Char} {root : Node}
    (h : (compile options source).tree = .ok root) : ∃ script markdown embedded,
      (compile options source).documents = [⟨script, []⟩, ⟨markdown, embedded⟩] ∧
        script.language = .script ∧ markdown.language = .markdown ∧
        ∀ p ch, ShowsAt source p ch → ∀ o, p ≤ o → o < p + ch.utf8Size →
          Routed root script markdown embedded o := by
  have hparse : parse options.parseOptions source = .ok root := by
    unfold compile at h
    split at h
    · next heq => rwa [heq]
    · cases h
  have hdocuments := congrArg Compilation.documents (compile_of_parse hparse)
  obtain ⟨-, -, -, hplaced⟩ := parse_ok hparse
  refine ⟨_, _, _, hdocuments, rfl, rfl, fun p ch hshows o hlo hhi => ?_⟩
  exact (sound_of_parse hparse).routed (fun _ _ => frontmatterAt_iff hplaced) hshows hlo hhi _ _

/-- A document with front matter, an expression and prose. -/
theorem compile_routes_frontmatter : ∃ root,
    (compile {} "+++\na\n+++\n \x7bb\x7d é".toList).tree = .ok root ∧ ∃ script markdown embedded,
      (compile {} "+++\na\n+++\n \x7bb\x7d é".toList).documents = [⟨script, []⟩, ⟨markdown, embedded⟩] ∧
        script.language = .script ∧ markdown.language = .markdown ∧
        ∀ p ch, ShowsAt "+++\na\n+++\n \x7bb\x7d é".toList p ch → ∀ o, p ≤ o → o < p + ch.utf8Size →
          Routed root script markdown embedded o := by
  have hparses : (compile {} "+++\na\n+++\n \x7bb\x7d é".toList).tree.toOption.isSome = true := by
    decide +kernel
  obtain ⟨root, htree⟩ := exists_ok hparses
  exact ⟨root, htree, compile_routes htree⟩

end Mdx

/-
The views that a cursor is answered from. The first view is the script view, and
no other one is for script; so with the services in use by default, all other
views that have a place for the cursor are asked about prose
(`servedAt_of_parse`), of which the service for prose knows nothing.
-/
import Mdx.Proofs.Feature.Bounds
import Mdx.Proofs.View.Scaffold
import Mdx.Service.Standard

namespace Mdx

/-- All views but the first one are for other languages than script. -/
theorem language_ne_script {options : CompileOptions} {source : List Char} {root : Node} {script : VirtualDocument}
    {rest : List DocumentGroup} (h : parse options.parseOptions source = .ok root)
    (hdocuments : (compile options source).documents = ⟨script, []⟩ :: rest) :
    ∀ d ∈ rest.flatMap DocumentGroup.all, d.language ≠ .script := by
  rw [compile_of_parse h] at hdocuments
  obtain ⟨-, rfl⟩ := List.cons.inj hdocuments
  rw [List.flatMap_singleton]
  refine List.forall_mem_cons.mpr ⟨by simp [VirtualDocument.ofGenerated], fun d hd => ?_⟩
  obtain ⟨region, -, rfl⟩ := List.mem_map.mp hd
  rw [frontmatterDocument, VirtualDocument.ofGenerated]
  cases region.dialect <;> simp [Dialect.language]

namespace Feature

variable {f : VirtualFile} {reported : DiagnosticsOptions}

/-- The one service for other languages than script is that for prose. -/
theorem service?_standard {s : Service} {language : Language}
    (h : (Registry.standard reported).service? language = some s) (hne : language ≠ .script) :
    s = MarkdownService.service := by
  cases language with
  | script => exact absurd rfl hne
  | markdown =>
    cases h
    rfl
  | yaml => cases h
  | toml => cases h

theorem servedAt_eq {script : VirtualDocument} {rest : List DocumentGroup}
    (hdocuments : f.compiled.documents = ⟨script, []⟩ :: rest) (hscript : script.language = .script)
    (hrest : ∀ d ∈ rest.flatMap DocumentGroup.all, d.language ≠ .script) (offset : Nat) :
    ∃ others, (∀ p ∈ others, p.1 = MarkdownService.service) ∧ servedAt f (.standard reported) offset =
      (script.mapping.toGeneratedCursor offset).toList.map (ScriptService.service reported, script, ·) ++ others := by
  have hall : f.allDocuments = script :: rest.flatMap DocumentGroup.all := by
    rw [VirtualFile.allDocuments, Compilation.allDocuments, hdocuments, List.flatMap_cons]
    rfl
  refine ⟨(rest.flatMap DocumentGroup.all).filterMap fun d => do
    let generated ← d.mapping.toGeneratedCursor offset
    let s ← (Registry.standard reported).service? d.language
    return (s, d, generated), fun p hp => ?_, ?_⟩
  · obtain ⟨d, hd, hp⟩ := List.mem_filterMap.mp hp
    simp only [Option.bind_eq_bind, Option.bind_eq_some_iff, Option.pure_def, Option.some.injEq] at hp
    obtain ⟨generated, -, s, hs, rfl⟩ := hp
    exact service?_standard hs (hrest d hd)
  · rw [servedAt, hall, List.filterMap_cons]
    cases script.mapping.toGeneratedCursor offset with
    | none => rfl
    | some generated =>
      simp only [Option.bind_eq_bind, Option.bind_some, hscript]
      rfl

/-- The views that a cursor is answered from in a document that parses: the script view, if it has a place for
the cursor, and then views that are asked about prose. -/
theorem servedAt_of_parse (reported : DiagnosticsOptions) {root : Node} (hf : f.UpToDate)
    (h : parse f.options.parseOptions f.source = .ok root) : ∃ script rest,
      f.compiled.documents = ⟨script, []⟩ :: rest ∧ ScriptView f.options f.source root script ∧
        ∀ offset, ∃ others, (∀ p ∈ others, p.1 = MarkdownService.service) ∧ servedAt f (.standard reported) offset =
          (script.mapping.toGeneratedCursor offset).toList.map (ScriptService.service reported, script, ·) ++
            others := by
  obtain ⟨script, rest, hdocuments, hview⟩ := scriptView_of_parse h
  have hrest := language_ne_script h hdocuments
  rw [← hf] at hdocuments
  exact ⟨script, rest, hdocuments, hview, servedAt_eq hdocuments hview.layout.language hrest⟩

end Feature

end Mdx

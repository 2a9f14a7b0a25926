/-
Hints about unused imports. No two imports bind at one place, so each import has
one hint at most, and it has one exactly if no other identifier of its name refers
to it (`hintsAt_eq`).

Bindings are those that come from the document, but uses are looked for in all of
the view. So the names in the head of the component are uses as well, and an import
of one of these names has no hint, whatever the document does with it
(`imports_hinted`).
-/
import Mdx.Proofs.Service.Declaration
import Mdx.Proofs.Service.Toggles
import Mdx.Proofs.View.Scaffold

namespace Mdx

open Script

namespace Script

/-- No two imports bind at one place. -/
theorem imports_apart (text : List Char) : (bindings text).Pairwise fun a b =>
    a.isImport = true → b.isImport = true → a.span ≠ b.span := by
  have hsymm : ∀ {a b : Binding}, a.span ≠ b.span → b.span ≠ a.span := fun h => h.symm
  have hread : (readLines readImport? 0 (Cursor.ofText text).lines).Pairwise fun a b => a.span ≠ b.span := by
    refine (readLines_imports 0 _).2.imp_of_mem fun ha _ hab heq => ?_
    have hlt := (standsIn_bindings (mem_bindings.mpr (.inl ha))).lt
    rw [heq] at hab hlt
    omega
  have himports := ((imports_perm text).pairwise_iff hsymm).mpr hread
  rw [List.pairwise_filter] at himports
  exact himports

end Script

namespace ScriptService

/-- The number of hints about an unused import at a place. -/
def hintsAt (found : List Diagnostic) (s : Span) : Nat :=
  found.countP fun x => x.code == some "unused-import" && x.range == s

theorem hintsAt_eq_zero {found : List Diagnostic} {other : String} (h : ∀ x ∈ found, x.code = some other)
    (hne : other ≠ "unused-import") (s : Span) : hintsAt found s = 0 :=
  List.countP_eq_zero.mpr fun x hx => by simp [h x hx, hne]

/-- The diagnostics of a script view, of which those about unused imports are reported if they are on. -/
theorem diagnostics_eq {d : VirtualDocument} {reported : DiagnosticsOptions} (hlanguage : d.language = .script)
    (hreported : reported.unusedImports = true) : ∃ found, diagnostics reported d = .ok found ∧
      ∀ s, hintsAt found s = hintsAt (unusedImports (analyze d)) s := by
  refine ⟨_, by simp only [diagnostics, expectLanguage, hlanguage, if_true]; rfl, fun s => ?_⟩
  have hduplicates : hintsAt (duplicates [] (analyze d).bindings) s = 0 :=
    hintsAt_eq_zero (fun x => code_of_mem_duplicates) (by decide) s
  have hcomponents : hintsAt (if reported.undefinedComponents then undefinedComponents (analyze d) else []) s = 0 :=
    hintsAt_eq_zero (fun x hx => code_of_mem_undefinedComponents (List.mem_ite_nil_right.mp hx).2) (by decide) s
  rw [hintsAt] at hduplicates hcomponents ⊢
  rw [(List.mergeSort_perm _ _).countP_eq, List.countP_append, List.countP_append, hduplicates, hcomponents,
    if_pos hreported, Nat.zero_add, Nat.add_zero]
  rfl

/-- The hints at a place are for the imports there that nothing refers to. -/
theorem hintsAt_unusedImports (a : Analysis) (s : Span) : hintsAt (unusedImports a) s =
    a.bindings.countP fun b => b.isImport && (references a.identifiers b).isEmpty && b.span == s := by
  rw [hintsAt, unusedImports, List.countP_map, List.countP_filter]
  refine List.countP_congr fun b _ => ?_
  simp [report, and_comm]

/-- **An import has one hint if nothing refers to it, and else none.** -/
theorem hintsAt_eq {d : VirtualDocument} {b : Binding} (hb : b ∈ (analyze d).bindings) (himport : b.isImport = true) :
    hintsAt (unusedImports (analyze d)) b.span = if (references (identifiers d.text) b).isEmpty then 1 else 0 := by
  have hapart := (imports_apart d.text).sublist (List.filter_sublist (l := bindings d.text)
    (p := fun b => (d.mapping.toSource b.span.start).isSome))
  obtain ⟨front, back, heq⟩ := List.append_of_mem hb
  have hsplit : (bindings d.text).filter (fun b => (d.mapping.toSource b.span.start).isSome) = front ++ b :: back := heq
  rw [hsplit, List.pairwise_append, List.pairwise_cons] at hapart
  obtain ⟨-, ⟨hback, -⟩, hfront⟩ := hapart
  have hnone : ∀ bs : List Binding, (∀ c ∈ bs, c.isImport = true → c.span ≠ b.span) →
      bs.countP (fun c => c.isImport && (references (analyze d).identifiers c).isEmpty && c.span == b.span) = 0 := by
    refine fun bs hbs => List.countP_eq_zero.mpr fun c hc => ?_
    simp only [Bool.and_eq_true, beq_iff_eq]
    rintro ⟨⟨hcimport, -⟩, hspan⟩
    exact hbs c hc hcimport hspan
  rw [hintsAt_unusedImports, heq, List.countP_append, hnone front fun c hc hcimport =>
    hfront c hc b List.mem_cons_self hcimport himport, List.countP_cons, hnone back fun c hc hcimport =>
    (hback c hc himport hcimport).symm, himport]
  simp [analyze]

end ScriptService

open ScriptService Component

/-- **An import has no hint for a name of the scaffold.** In the script view of a document that parses,
each import has one hint at most. It has one exactly if each other identifier of its name is a property;
so exactly if each that comes from the document is one and the name is none of those in the head of the
component, as long as the import source does not end the comment that it is put in. -/
theorem imports_hinted {options : CompileOptions} {source : List Char} {root : Node}
    (h : (compile options source).tree = .ok root) {reported : DiagnosticsOptions}
    (hreported : reported.unusedImports = true) : ∃ script rest,
      (compile options source).documents = ⟨script, []⟩ :: rest ∧ script.language = .script ∧
      ∃ found, diagnostics reported script = .ok found ∧ ∀ b ∈ (analyze script).bindings, b.isImport = true →
        hintsAt found b.span ≤ 1 ∧
        (hintsAt found b.span = 1 ↔ ∀ i ∈ identifiers script.text, i.isProperty = false → i.name = b.name →
          i.span = b.span) ∧
        (¬ "*/".toList <:+: options.jsxImportSource.toList → (hintsAt found b.span = 1 ↔
          (∀ i ∈ identifiers script.text, (script.mapping.toSourceSpan i.span).isSome = true →
            i.isProperty = false → i.name = b.name → i.span = b.span) ∧
          b.name ∉ scaffoldNames (isExported source root))) := by
  obtain ⟨script, rest, hscript, hview⟩ := scriptView_of_parse (parse_of_tree h)
  obtain ⟨found, hfound, hhints⟩ := diagnostics_eq hview.layout.language hreported
  refine ⟨script, rest, hscript, hview.layout.language, found, hfound, fun b hb himport => ?_⟩
  have hcount := (hhints b.span).trans (hintsAt_eq hb himport)
  have huses : hintsAt found b.span = 1 ↔ ∀ i ∈ identifiers script.text, i.isProperty = false → i.name = b.name →
      i.span = b.span := by
    rw [hcount, ← references_eq_nil_iff]
    cases hempty : (references (identifiers script.text) b).isEmpty <;> simp [← List.isEmpty_iff, hempty]
  refine ⟨?_, huses, fun hcomment => huses.trans ⟨fun hall => ⟨fun i hi _ => hall i hi, fun hname => ?_⟩, ?_⟩⟩
  · rw [hcount]
    split <;> omega
  · obtain ⟨hnames, hhead⟩ := names_head (isExported source root)
    rw [← hnames] at hname
    obtain ⟨j, hj, hjname⟩ := List.mem_map.mp hname
    obtain ⟨i, hi, hij, hnone⟩ := hview.exists_scaffold hcomment hj
    have hspan := hall i hi ((hij.isProperty (hhead j hj).2).trans (hhead j hj).1) (hij.name.trans hjname)
    have hmapped := (List.mem_filter.mp hb).2
    rw [← hspan, hnone] at hmapped
    cases hmapped
  · rintro ⟨hmapped, hname⟩ i hi hproperty hiname
    rcases hview.mapped_or_scaffold hcomment hi with hplace | ⟨j, hj, hij⟩
    · rw [← (hview.identifierPlaced hi).isSome_toSourceSpan hview.faithful (isRun_of_mem hi).lt] at hplace
      exact hmapped i hi hplace hproperty hiname
    · rw [← (names_head (isExported source root)).1, ← hiname, hij.name] at hname
      exact absurd (List.mem_map_of_mem hj) hname

/-- An import that nothing uses. -/
theorem imports_hinted_once :
    let source := "import b from 'x'\n".toList
    ∃ root, (compile {} source).tree = .ok root ∧ DiagnosticsOptions.unusedImports {} = true ∧
      ∃ script rest, (compile {} source).documents = ⟨script, []⟩ :: rest ∧ script.language = .script ∧
        ∃ found, diagnostics {} script = .ok found ∧ ∃ b ∈ (analyze script).bindings, b.isImport = true ∧
          b.name = "b" ∧ hintsAt found b.span = 1 := by
  intro source
  let root : Node := .branch .root ⟨0, 18⟩ [.branch .moduleBlock ⟨0, 17⟩ [.leaf .moduleStatement ⟨0, 17⟩]]
  let text := ["/* @jsxRuntime automatic\n", "@jsxImportSource react */\n", "import b from 'x'\n",
    "\n/** @param \x7b\x7breadonly ", "[key: string]: unknown\x7d\x7d ", "props */\n",
    "export default function ", "MDXContent(props) \x7b\n", "  return <>\n", "                 \n",
    "\n  </>\n\x7d\n"].flatMap String.toList
  let script : VirtualDocument := ⟨"jsx", .script, text, ⟨[⟨0, 51, 17⟩]⟩⟩
  let b : Binding := ⟨"b", ⟨58, 59⟩, ⟨51, 68⟩, .imported "x" false⟩
  have htree : (compile {} source).tree = .ok root := ok_of_toOption (by decide +kernel)
  have hfirst : (compile {} source).documents.head? = some ⟨script, []⟩ := by decide +kernel
  obtain ⟨rest, hdocuments⟩ := List.head?_eq_some_iff.mp hfirst
  obtain ⟨script', rest', hdocuments', hlanguage, found, hfound, hhints⟩ :=
    imports_hinted htree (show DiagnosticsOptions.unusedImports {} = true from rfl)
  obtain ⟨hscript, -⟩ := List.cons.inj (hdocuments.symm.trans hdocuments')
  obtain rfl : script = script' := congrArg DocumentGroup.main hscript
  have hb : b ∈ (analyze script).bindings :=
    List.mem_filter.mpr ⟨mem_bindings.mpr (.inl (by decide +kernel)), by decide +kernel⟩
  obtain ⟨-, hiff, -⟩ := hhints b hb rfl
  exact ⟨root, htree, rfl, script, rest, hdocuments, hlanguage, found, hfound, b, hb, rfl, rfl,
    hiff.mpr (by decide +kernel)⟩

/-- An import that nothing in the document uses has no hint, since the component has a parameter of its
name. -/
theorem scaffold_counts_as_use :
    let source := "import props from 'x'\n".toList
    ∃ root script rest, (compile {} source).tree = .ok root ∧
      (compile {} source).documents = ⟨script, []⟩ :: rest ∧
      ∃ b ∈ (analyze script).bindings, b.isImport = true ∧ b.name = "props" ∧
        (∀ i ∈ identifiers script.text, (script.mapping.toSourceSpan i.span).isSome = true →
          i.isProperty = false → i.name = b.name → i.span = b.span) ∧
        ∃ found, diagnostics {} script = .ok found ∧ hintsAt found b.span = 0 := by
  intro source
  let root : Node := .branch .root ⟨0, 22⟩ [.branch .moduleBlock ⟨0, 21⟩ [.leaf .moduleStatement ⟨0, 21⟩]]
  let text := ["/* @jsxRuntime automatic\n", "@jsxImportSource react */\n", "import props from 'x'\n",
    "\n/** @param \x7b\x7breadonly ", "[key: string]: unknown\x7d\x7d ", "props */\n",
    "export default function ", "MDXContent(props) \x7b\n", "  return <>\n", "                     \n",
    "\n  </>\n\x7d\n"].flatMap String.toList
  let script : VirtualDocument := ⟨"jsx", .script, text, ⟨[⟨0, 51, 21⟩]⟩⟩
  let b : Binding := ⟨"props", ⟨58, 63⟩, ⟨51, 72⟩, .imported "x" false⟩
  have htree : (compile {} source).tree = .ok root := ok_of_toOption (by decide +kernel)
  have hfirst : (compile {} source).documents.head? = some ⟨script, []⟩ := by decide +kernel
  obtain ⟨rest, hdocuments⟩ := List.head?_eq_some_iff.mp hfirst
  have hb : b ∈ (analyze script).bindings :=
    List.mem_filter.mpr ⟨mem_bindings.mpr (.inl (by decide +kernel)), by decide +kernel⟩
  obtain ⟨found, hfound, hhints⟩ :=
    diagnostics_eq (d := script) rfl (show DiagnosticsOptions.unusedImports {} = true from rfl)
  have hused : (references (identifiers script.text) b).isEmpty = false := by decide +kernel
  have hcount := (hhints b.span).trans (hintsAt_eq hb rfl)
  rw [hused] at hcount
  exact ⟨root, script, rest, htree, hdocuments, b, hb, rfl, rfl, by decide +kernel, found, hfound, hcount⟩

end Mdx

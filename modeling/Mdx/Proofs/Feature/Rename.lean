/-
Renames in a document. The script view is the only one that answers, so a rename is
that of the view at the place the cursor goes to, carried back (`rename_of_parse`).

A name that comes back is one entry's, so it comes back as it is, and names that
are apart in the view are apart in the document (`ScriptView.renames`). A cursor at
the end of a name goes to the end of the name in the view, so if the name is
bound once it can be renamed from each of its places (`rename_changes_names`).
-/
import Mathlib.Data.List.Nodup
import Mdx.Proofs.Feature.Served
import Mdx.Proofs.Service.Rename
import Mdx.Proofs.View.Cursor

namespace Mdx

open Script ScriptService

/-! ## Changes that come back -/

/-- The changes of a view as changes of the document, without those that do not come back. -/
def carryEdits (d : VirtualDocument) (edits : List TextEdit) : List TextEdit :=
  edits.filterMap fun e => (d.mapping.toSourceSpan e.range).map fun range => { e with range }

theorem mem_carryEdits {d : VirtualDocument} {edits : List TextEdit} {x : TextEdit} : x ∈ carryEdits d edits ↔
    ∃ e ∈ edits, d.mapping.toSourceSpan e.range = some x.range ∧ e.newText = x.newText := by
  obtain ⟨range, newText⟩ := x
  simp only [carryEdits, List.mem_filterMap, Option.map_eq_some_iff, TextEdit.mk.injEq]
  refine exists_congr fun e => and_congr_right fun _ => ⟨?_, fun ⟨hrange, htext⟩ => ⟨_, hrange, rfl, htext⟩⟩
  rintro ⟨s, hs, rfl, htext⟩
  exact ⟨hs, htext⟩

/-- Of changes without a common byte there is one at each place. -/
theorem count_range_eq_one {edits : List TextEdit} (hapart : edits.Pairwise fun x y => x.range.Disjoint y.range)
    (hne : ∀ e ∈ edits, e.range.start < e.range.stop) {e : TextEdit} (he : e ∈ edits) :
    (edits.map TextEdit.range).count e.range = 1 := by
  refine List.count_eq_one_of_mem (List.pairwise_map.mpr (hapart.imp_of_mem fun {x y} hx _ hxy heq => ?_))
    (List.mem_map_of_mem he)
  have hin : x.range.contains x.range.start = true := Span.contains_iff.mpr ⟨Nat.le_refl _, hne x hx⟩
  exact hxy _ ⟨hin, heq ▸ hin⟩

/-- What the changes are that give a binding of a script view another name in the document. Whether a name
stands alone in braces is told by all of the text before it. Where a comment or a string in that text
makes a difference, nothing is said of the alias. -/
structure Renames (source : List Char) (script : VirtualDocument) (b : Binding) (newName : String)
    (edits : List TextEdit) : Prop where
  /-- The old name stands at each change. -/
  reads : ∀ e ∈ edits, e.range.InText source ∧ slice source e.range = b.name.toList
  apart : edits.Pairwise fun x y => x.range.Disjoint y.range
  identifiers : ∀ i ∈ identifiers script.text, i.isProperty = false → i.name = b.name →
    ∀ s, script.mapping.toSourceSpan i.span = some s → (edits.map TextEdit.range).count s = 1
  declaration : ∃ s, script.mapping.toSourceSpan b.span = some s ∧ (edits.map TextEdit.range).count s = 1 ∧
    ∀ e ∈ edits, e.range = s → e.newText = newName ∨ (b.isImport = true ∧ e.newText = b.name ++ " as " ++ newName)
  references : ∀ e ∈ edits, script.mapping.toSourceSpan b.span ≠ some e.range → e.newText = newName ∧
    ∃ i ∈ Script.identifiers script.text, i.isProperty = false ∧ i.name = b.name ∧
      script.mapping.toSourceSpan i.span = some e.range
  bracedAlone : isBracedAlone (b.codeLead script.text) = isBracedAlone (b.lead script.text) → ∀ e ∈ edits,
    script.mapping.toSourceSpan b.span = some e.range → e.newText =
      if b.isImport = true ∧ isBracedAlone (b.codeLead script.text) = true then b.name ++ " as " ++ newName else newName

namespace ScriptView

variable {options : CompileOptions} {source : List Char} {root : Node} {script : VirtualDocument} {b : Binding}
  {newName : String} {i : Identifier} {e : TextEdit} {s : Span}

/-- A binding of the view comes back to the document. -/
theorem isSome_binding (h : ScriptView options source root script) (hb : b ∈ (analyze script).bindings) :
    ∃ s, script.mapping.toSourceSpan b.span = some s := by
  obtain ⟨hbinding, hmapped⟩ := List.mem_filter.mp hb
  have hstands := (standsIn_bindings hbinding).asIdentifier false
  rw [← Option.isSome_iff_exists, ← hmapped]
  exact (identifierPlaced_of_fenced h.faithful h.fenced hstands).isSome_toSourceSpan h.faithful hstands.nonempty

section Changes

variable (h : ScriptView options source root script) (hb : b ∈ (analyze script).bindings)
include h hb

theorem reads_carryEdits (he : e ∈ carryEdits script (changes (identifiers script.text) b newName)) :
    e.range.start < e.range.stop ∧ e.range.InText source ∧ slice source e.range = b.name.toList := by
  obtain ⟨x, hx, hrange, -⟩ := mem_carryEdits.mp he
  have hstands := standsIn_change (standsIn_bindings (mem_of_mem_analyze hb)) hx
  obtain ⟨entry, hentry, hw, heq⟩ := h.exists_entry hstands hrange
  obtain ⟨hin, hslice⟩ := (h.faithful.copies entry hentry).part hstands.inText hw
  rw [heq]
  refine ⟨?_, hin, hslice.trans hstands.slice_eq⟩
  obtain ⟨hlo, hhi⟩ := hw
  have hne : x.range.start < x.range.stop := hstands.nonempty
  simp only [Entry.part, Entry.generatedSpan, Span.ofLength] at hlo hhi ⊢
  omega

theorem apart_carryEdits : (carryEdits script (changes (identifiers script.text) b newName)).Pairwise fun x y =>
    x.range.Disjoint y.range := by
  have hstands := standsIn_bindings (mem_of_mem_analyze hb)
  refine List.pairwise_filterMap.mpr ((changes_pairwise hstands).imp_of_mem ?_)
  rintro x y hx hy hxy x' hx' y' hy'
  obtain ⟨s, hs, rfl⟩ := Option.map_eq_some_iff.mp hx'
  obtain ⟨t, ht, rfl⟩ := Option.map_eq_some_iff.mp hy'
  obtain ⟨e, he, hse, rfl⟩ := h.exists_entry (standsIn_change hstands hx) hs
  obtain ⟨f, hf, htf, rfl⟩ := h.exists_entry (standsIn_change hstands hy) ht
  exact Mapping.disjoint_part h.faithful.wellFormed he hf hse htf hxy

/-- **The changes of a binding, carried back, rename it in the document.** -/
theorem renames : Renames source script b newName (carryEdits script (sortedChanges script b newName)) := by
  have hperm : (carryEdits script (sortedChanges script b newName)).Perm
      (carryEdits script (changes (identifiers script.text) b newName)) := (List.mergeSort_perm _ _).filterMap _
  have hreads := fun e he => h.reads_carryEdits hb (hperm.mem_iff.mp he) (e := e)
  have hapart := (hperm.pairwise_iff Span.Disjoint.symm).mpr (h.apart_carryEdits hb)
  have hmem : ∀ {x s}, x ∈ changes (identifiers script.text) b newName →
      script.mapping.toSourceSpan x.range = some s →
        ⟨s, x.newText⟩ ∈ carryEdits script (sortedChanges script b newName) :=
    fun hx hs => hperm.mem_iff.mpr (mem_carryEdits.mpr ⟨_, hx, hs, rfl⟩)
  have hcount := fun {e} he => count_range_eq_one hapart (fun e he => (hreads e he).1) (e := e) he
  -- A change of the document at the place of the bound name is that of the bound name.
  have hdeclaration : ∀ e ∈ carryEdits script (sortedChanges script b newName),
      script.mapping.toSourceSpan b.span = some e.range → e.newText = renamedDeclaration b newName := by
    intro e he hs
    have he' := hmem (x := ⟨b.span, renamedDeclaration b newName⟩) List.mem_cons_self hs
    have : Std.Symm fun x y : TextEdit => x.range.Disjoint y.range := ⟨fun _ _ hxy => hxy.symm⟩
    refine Classical.byContradiction fun hne => ?_
    have hin : e.range.contains e.range.start = true := Span.contains_iff.mpr ⟨Nat.le_refl _, (hreads e he).1⟩
    exact hapart.forall he he' (fun heq => hne (congrArg TextEdit.newText heq)) _ ⟨hin, hin⟩
  refine ⟨fun e he => (hreads e he).2, hapart, fun i hi hproperty hname s hs => ?_, ?_, fun e he hs => ?_,
    fun hcode e he hs => ?_⟩
  · obtain ⟨x, hx, hrange⟩ : ∃ x ∈ changes (identifiers script.text) b newName, x.range = i.span :=
      exists_change hi hproperty hname
    exact hcount (hmem hx (hrange ▸ hs))
  · obtain ⟨s, hs⟩ := h.isSome_binding hb
    refine ⟨s, hs, hcount (hmem (x := ⟨b.span, _⟩) List.mem_cons_self hs), fun e he hrange => ?_⟩
    rw [hdeclaration e he (hrange ▸ hs), renamedDeclaration_eq (mem_of_mem_analyze hb)]
    split
    · next himport => exact .inr ⟨himport.1, rfl⟩
    · exact .inl rfl
  · obtain ⟨x, hx, hrange, htext⟩ := mem_carryEdits.mp (hperm.mem_iff.mp he)
    rcases change_cases hx with rfl | ⟨i, hi, hproperty, hname, -, rfl⟩
    · exact absurd hrange hs
    · exact ⟨htext.symm, i, hi, hproperty, hname, hrange⟩
  · rw [hdeclaration e he hs, renamedDeclaration_eq (mem_of_mem_analyze hb), hcode]

end Changes

end ScriptView

/-! ## The views that answer -/

namespace Feature

variable {f : VirtualFile} {reported : DiagnosticsOptions} {newName : String}

theorem renameIn_eq_nil {asked : List (Service × VirtualDocument × Nat)}
    (h : ∀ p ∈ asked, p.1 = MarkdownService.service) : renameIn newName asked = .ok [] := by
  induction asked with
  | nil => rfl
  | cons p asked ih =>
    obtain ⟨s, d, generated⟩ := p
    obtain ⟨rfl, hasked⟩ := List.forall_mem_cons.mp h
    exact ih hasked

/-- **A rename is that of the script view, carried back.** Where the script view has no place for the cursor
nothing is renamed. -/
theorem rename_eq {script : VirtualDocument} {offset : Nat} {others : List (Service × VirtualDocument × Nat)}
    (hothers : ∀ p ∈ others, p.1 = MarkdownService.service) (hserved : servedAt f (.standard reported) offset =
      (script.mapping.toGeneratedCursor offset).toList.map (ScriptService.service reported, script, ·) ++ others) :
    rename f (.standard reported) offset newName = match script.mapping.toGeneratedCursor offset with
      | none => .ok []
      | some generated => (ScriptService.rename script generated newName).map (carryEdits script) := by
  have hothers : renameIn newName others = .ok [] := renameIn_eq_nil hothers
  rw [rename, hserved]
  cases script.mapping.toGeneratedCursor offset with
  | none => exact hothers
  | some generated =>
    rw [Option.toList_some, List.map_singleton, List.singleton_append, renameIn]
    dsimp only [ScriptService.service]
    cases ScriptService.rename script generated newName with
    | error _ => rfl
    | ok edits =>
      simp only [bind, Except.bind, pure, Except.pure, Except.map]
      split
      · next hempty =>
        rw [hothers, List.isEmpty_iff.mp hempty]
        rfl
      · rfl

/-- What a rename in a document that parses gives: the changes of the binding that the cursor's place in the
script view refers to, and nothing if the new name is not valid. -/
theorem rename_of_parse (reported : DiagnosticsOptions) {root : Node} (hf : f.UpToDate)
    (h : parse f.options.parseOptions f.source = .ok root) :
    ∃ script rest, f.compiled.documents = ⟨script, []⟩ :: rest ∧ ScriptView f.options f.source root script ∧
      ∀ (offset : Nat) (newName : String), if isValidName newName.toList = true then
        rename f (.standard reported) offset newName = .ok
          (((script.mapping.toGeneratedCursor offset).bind (analyze script).resolve?).elim []
            fun found => carryEdits script (sortedChanges script found.2 newName))
      else ∀ edits, rename f (.standard reported) offset newName = .ok edits → edits = [] := by
  obtain ⟨script, rest, hdocuments, hview, hserved⟩ := servedAt_of_parse reported hf h
  refine ⟨script, rest, hdocuments, hview, fun offset newName => ?_⟩
  obtain ⟨others, hothers, hserved⟩ := hserved offset
  have hlanguage := hview.layout.language
  rw [rename_eq hothers hserved]
  cases hplace : script.mapping.toGeneratedCursor offset with
  | none =>
    split
    · rfl
    · exact fun edits hedits => (Except.ok.inj hedits).symm
  | some place =>
    have hle := Mapping.toGeneratedCursor_le hview.faithful hplace
    dsimp only
    split
    · next hname =>
      rw [rename_valid hlanguage hle hname, Option.bind_some]
      cases (analyze script).resolve? place <;> rfl
    · next hname =>
      rw [rename_invalid hlanguage hle (Bool.eq_false_iff.mpr hname)]
      intro edits hedits
      cases hedits

/-- A rename in a document whose script view is known. -/
theorem rename_of_head {root : Node} {script : VirtualDocument} (hf : f.UpToDate) (h : f.compiled.tree = .ok root)
    (hfirst : f.compiled.documents.head? = some ⟨script, []⟩) (hname : isValidName newName.toList = true)
    (offset : Nat) : rename f (.standard reported) offset newName = .ok
      (((script.mapping.toGeneratedCursor offset).bind (analyze script).resolve?).elim []
        fun found => carryEdits script (sortedChanges script found.2 newName)) := by
  rw [hf] at h
  obtain ⟨script', rest, hdocuments, -, hrename⟩ := rename_of_parse reported hf (parse_of_tree h)
  rw [hdocuments, List.head?_cons, Option.some.injEq, DocumentGroup.mk.injEq] at hfirst
  obtain ⟨rfl, -⟩ := hfirst
  simpa only [hname, if_true] using hrename offset newName

end Feature

open Feature

/-- Renaming from a place of a change changes the same again, if the name is bound once. -/
theorem ScriptView.resolve?_of_change {options : CompileOptions} {source : List Char} {root : Node}
    {script : VirtualDocument} (h : ScriptView options source root script) {b : Binding} {newName : String}
    (honce : (analyze script).bindings.filter (·.name == b.name) = [b]) {i : Identifier}
    (hi : i ∈ identifiers script.text) (hproperty : i.isProperty = false) (hspan : i.span = b.span) {e : TextEdit}
    (he : e ∈ carryEdits script (sortedChanges script b newName)) {o : Nat} (hlo : e.range.start ≤ o)
    (hhi : o ≤ e.range.stop) :
    ∃ j, (script.mapping.toGeneratedCursor o).bind (analyze script).resolve? = some (j, b) := by
  have hb : b ∈ (analyze script).bindings := (List.mem_filter.mp (honce ▸ List.mem_singleton_self b)).1
  have hstands := standsIn_bindings (mem_of_mem_analyze hb)
  obtain ⟨x, hx, hrange, -⟩ := mem_carryEdits.mp he
  have hx := List.mem_mergeSort.mp hx
  -- At each change stands an identifier of the name that is no property.
  obtain ⟨j, hj, hjproperty, hjname, hjspan⟩ : ∃ j ∈ identifiers script.text, j.isProperty = false ∧
      j.name = b.name ∧ j.span = x.range := by
    rcases change_cases hx with rfl | ⟨j, hj, hjproperty, hjname, -, rfl⟩
    · exact ⟨i, hi, hproperty, hstands.name_eq hi hspan, hspan⟩
    · exact ⟨j, hj, hjproperty, hjname, rfl⟩
  have hjstands := standsIn_identifiers script.text j hj
  obtain ⟨entry, hentry, hw, heq⟩ := h.exists_entry hjstands (hjspan ▸ hrange)
  rw [heq] at hlo hhi
  have hplace := h.toGeneratedCursor_of_within hentry hjstands.inText hjstands.nonempty
    (hjstands.slice_eq ▸ hjstands.chars) hw hlo hhi
  obtain ⟨hstart, hstop⟩ := hw
  simp only [Entry.part, Entry.generatedSpan, Span.ofLength] at hstart hstop hlo hhi
  have hin : j.span.start ≤ entry.shift o ∧ entry.shift o ≤ j.span.stop := by
    have := hjstands.nonempty
    simp only [Entry.shift]
    omega
  rw [hplace, Option.bind_some]
  exact ⟨j, resolve?_of_bound_once honce hj hjproperty hjname hin.1 hin.2⟩

/-- **A rename changes the places of one name, and each of them.** In a document that parses, a rename to a
valid name gives changes or none at all. If there are any, an identifier stands at the cursor's place in the
script view and its name is bound: the changes have no byte in common, the old name stands at each of them,
each identifier of the name that comes from the document and is no property is changed once, and each
becomes the new name, but for the declaration of an import, which may keep the old one under an alias. If
the name is bound once, by an identifier that is no property, the rename gives the same changes from each
place in a change and from the end of it. A name that is not valid gives no changes. -/
theorem rename_changes_names {f : VirtualFile} {root : Node} (hf : f.UpToDate) (h : f.compiled.tree = .ok root)
    (reported : DiagnosticsOptions) : ∃ script rest, f.compiled.documents = ⟨script, []⟩ :: rest ∧
      script.language = .script ∧ ∀ (offset : Nat) (newName : String),
        (isValidName newName.toList = true → ∃ edits, rename f (.standard reported) offset newName = .ok edits ∧
          (edits ≠ [] → ∃ place i b, script.mapping.toGeneratedCursor offset = some place ∧
            i ∈ identifiers script.text ∧ i.span.start ≤ place ∧ place ≤ i.span.stop ∧ i.isProperty = false ∧
            i.name = b.name ∧ b ∈ (analyze script).bindings ∧ Renames f.source script b newName edits ∧
            ((analyze script).bindings.filter (·.name == b.name) = [b] →
              (∃ j ∈ identifiers script.text, j.isProperty = false ∧ j.span = b.span) → ∀ e ∈ edits, ∀ o,
                e.range.start ≤ o → o ≤ e.range.stop → rename f (.standard reported) o newName = .ok edits))) ∧
        (isValidName newName.toList = false → ∀ edits, rename f (.standard reported) offset newName = .ok edits →
          edits = []) := by
  rw [hf] at h
  obtain ⟨script, rest, hdocuments, hview, hrename⟩ := rename_of_parse reported hf (parse_of_tree h)
  refine ⟨script, rest, hdocuments, hview.layout.language, fun offset newName => ⟨fun hname => ?_, fun hname => by
    simpa only [hname, Bool.false_eq_true, if_false] using hrename offset newName⟩⟩
  have hrename : ∀ o, rename f (.standard reported) o newName = .ok
      (((script.mapping.toGeneratedCursor o).bind (analyze script).resolve?).elim []
        fun found => carryEdits script (sortedChanges script found.2 newName)) := fun o => by
    simpa only [hname, if_true] using hrename o newName
  refine ⟨_, hrename offset, fun hedits => ?_⟩
  cases hfound : (script.mapping.toGeneratedCursor offset).bind (analyze script).resolve? with
  | none =>
    rw [hfound] at hedits
    exact absurd rfl hedits
  | some found =>
    obtain ⟨i, b⟩ := found
    obtain ⟨place, hplace, hresolve⟩ := Option.bind_eq_some_iff.mp hfound
    obtain ⟨⟨hi, hlo, hhi⟩, hproperty, hb, hiname⟩ := mem_of_resolve? hresolve
    rw [Option.elim_some]
    refine ⟨place, i, b, hplace, hi, hlo, hhi, hproperty, hiname, hb, hview.renames hb, ?_⟩
    rintro honce ⟨j, hj, hjproperty, hjspan⟩ e he o hstart hstop
    obtain ⟨k, hk⟩ := hview.resolve?_of_change honce hj hjproperty hjspan he hstart hstop
    rw [hrename o, hk, Option.elim_some]

/-- A name in braces is imported under an alias. The end of its one use is a place to rename it from. -/
theorem rename_changes_names_braced :
    let f := VirtualFile.create "jsx" "import \x7ba\x7d from 'x'\n\n\x7ba\x7d\n".toList {}
    let edits : List TextEdit := [⟨⟨8, 9⟩, "a as c"⟩, ⟨⟨22, 23⟩, "c"⟩]
    f.UpToDate ∧ (∃ root, f.compiled.tree = .ok root) ∧ isValidName "c".toList = true ∧
      isValidName "1".toList = false ∧ rename f (.standard {}) 22 "c" = .ok edits ∧
      (∀ e ∈ edits, ∀ o, e.range.start ≤ o → o ≤ e.range.stop → rename f (.standard {}) o "c" = .ok edits) ∧
      ∀ edits, rename f (.standard {}) 22 "1" = .ok edits → edits = [] := by
  intro f edits
  let root : Node := .branch .root ⟨0, 25⟩ [.branch .moduleBlock ⟨0, 19⟩ [.leaf .moduleStatement ⟨0, 19⟩],
    .leaf (.blockExpression ⟨⟨22, 23⟩, false⟩) ⟨21, 24⟩]
  let text := ["/* @jsxRuntime automatic\n", "@jsxImportSource react */\n", "import \x7ba\x7d from 'x'\n\n   \n",
    "\n/** @param \x7b\x7breadonly ", "[key: string]: unknown\x7d\x7d ", "props */\n",
    "export default function ", "MDXContent(props) \x7b\n", "  return <>\n", "                   \n\n\x7ba\x7d\n",
    "\n  </>\n\x7d\n"].flatMap String.toList
  let script : VirtualDocument := ⟨"jsx", .script, text, ⟨[⟨0, 51, 19⟩, ⟨21, 210, 3⟩]⟩⟩
  let b : Binding := ⟨"a", ⟨59, 60⟩, ⟨51, 70⟩, .imported "x" true⟩
  let component : Binding := ⟨"MDXContent", ⟨157, 167⟩, ⟨133, 176⟩, .exported "function"⟩
  have hf : f.UpToDate := upToDate_create _ _ _
  have htree : f.compiled.tree = .ok root := ok_of_toOption (by decide +kernel)
  have hfirst : f.compiled.documents.head? = some ⟨script, []⟩ := by decide +kernel
  have hname : isValidName "c".toList = true := by decide
  have hinvalid : isValidName "1".toList = false := by decide
  have hread : readLines readImport? 0 (Cursor.ofText text).lines ++
      readLines readExport? 0 (Cursor.ofText text).lines = [b, component] := by decide +kernel
  have hidentifiers : identifiers text = [⟨"import", ⟨51, 57⟩, false⟩, ⟨"a", ⟨59, 60⟩, false⟩,
      ⟨"from", ⟨62, 66⟩, false⟩, ⟨"export", ⟨133, 139⟩, false⟩, ⟨"default", ⟨140, 147⟩, false⟩,
      ⟨"function", ⟨148, 156⟩, false⟩, ⟨"MDXContent", ⟨157, 167⟩, false⟩, ⟨"props", ⟨168, 173⟩, false⟩,
      ⟨"return", ⟨179, 185⟩, false⟩, ⟨"a", ⟨211, 212⟩, false⟩] := by decide +kernel
  have hall : bindings text = [b, component] := by
    rw [bindings, hread, List.mergeSort_of_pairwise (by decide)]
  have hbindings : (analyze script).bindings = [b] := by
    show (bindings text).filter _ = _
    rw [hall]
    decide
  have honce : (analyze script).bindings.filter (·.name == b.name) = [b] := by
    rw [hbindings]
    decide
  have hplace : script.mapping.toGeneratedCursor 22 = some 211 := by
    rw [Mapping.toGeneratedCursor, Mapping.bySource, List.mergeSort_of_pairwise (by decide)]
    decide
  have hresolve : (analyze script).resolve? 211 = some (⟨"a", ⟨211, 212⟩, false⟩, b) :=
    resolve?_of_bound_once honce (hidentifiers ▸ by decide) rfl rfl (by decide) (by decide)
  have hcarried : carryEdits script (sortedChanges script b "c") = edits := by
    have hchanges : changes (identifiers text) b "c" = [⟨⟨59, 60⟩, "a as c"⟩, ⟨⟨211, 212⟩, "c"⟩] := by
      rw [hidentifiers]
      decide
    rw [sortedChanges, hchanges, List.mergeSort_of_pairwise (by decide)]
    decide
  have hanswer : rename f (.standard {}) 22 "c" = .ok edits := by
    rw [rename_of_head hf htree hfirst hname, hplace, Option.bind_some, hresolve, Option.elim_some, hcarried]
  obtain ⟨script', rest, hdocuments, -, hrename⟩ := rename_changes_names hf htree {}
  obtain rfl : script = script' :=
    congrArg DocumentGroup.main (Option.some.inj (hfirst.symm.trans (by rw [hdocuments]; rfl)))
  obtain ⟨hvalid, -⟩ := hrename 22 "c"
  obtain ⟨edits', hedits, hchanges⟩ := hvalid hname
  obtain rfl : edits = edits' := Except.ok.inj (hanswer.symm.trans hedits)
  obtain ⟨-, -, c, -, -, -, -, -, -, hc, -, hsame⟩ := hchanges (List.cons_ne_nil _ _)
  obtain rfl : c = b := List.mem_singleton.mp (hbindings ▸ hc)
  have hdeclared := hsame honce ⟨⟨"a", ⟨59, 60⟩, false⟩, hidentifiers ▸ by decide, rfl, rfl⟩
  exact ⟨hf, ⟨root, htree⟩, hname, hinvalid, hanswer, hdeclared, (hrename 22 "1").2 hinvalid⟩

/-- The member of a name in an import is bound, but it is told for a property there: the one use can be
renamed, with the declaration, and from the declaration nothing can. -/
theorem declarations_as_properties :
    let f := VirtualFile.create "jsx" "import a.b from 'x'\n\n\x7bb\x7d\n".toList {}
    ∃ root script rest b, f.compiled.tree = .ok root ∧ f.compiled.documents = ⟨script, []⟩ :: rest ∧
      (analyze script).bindings.filter (·.name == b.name) = [b] ∧
      (∃ i ∈ identifiers script.text, i.span = b.span ∧ i.name = b.name) ∧ isValidName "c".toList = true ∧
      rename f (.standard {}) 22 "c" = .ok [⟨⟨9, 10⟩, "c"⟩, ⟨⟨22, 23⟩, "c"⟩] ∧
      rename f (.standard {}) 9 "c" = .ok [] := by
  intro f
  let root : Node := .branch .root ⟨0, 25⟩ [.branch .moduleBlock ⟨0, 19⟩ [.leaf .moduleStatement ⟨0, 19⟩],
    .leaf (.blockExpression ⟨⟨22, 23⟩, false⟩) ⟨21, 24⟩]
  let text := ["/* @jsxRuntime automatic\n", "@jsxImportSource react */\n", "import a.b from 'x'\n\n   \n",
    "\n/** @param \x7b\x7breadonly ", "[key: string]: unknown\x7d\x7d ", "props */\n",
    "export default function ", "MDXContent(props) \x7b\n", "  return <>\n", "                   \n\n\x7bb\x7d\n",
    "\n  </>\n\x7d\n"].flatMap String.toList
  let script : VirtualDocument := ⟨"jsx", .script, text, ⟨[⟨0, 51, 19⟩, ⟨21, 210, 3⟩]⟩⟩
  let b : Binding := ⟨"b", ⟨60, 61⟩, ⟨51, 70⟩, .imported "x" false⟩
  let component : Binding := ⟨"MDXContent", ⟨157, 167⟩, ⟨133, 176⟩, .exported "function"⟩
  have hf : f.UpToDate := upToDate_create _ _ _
  have htree : f.compiled.tree = .ok root := ok_of_toOption (by decide +kernel)
  have hfirst : f.compiled.documents.head? = some ⟨script, []⟩ := by decide +kernel
  have hname : isValidName "c".toList = true := by decide
  have hread : readLines readImport? 0 (Cursor.ofText text).lines ++
      readLines readExport? 0 (Cursor.ofText text).lines = [b, component] := by decide +kernel
  have hidentifiers : identifiers text = [⟨"import", ⟨51, 57⟩, false⟩, ⟨"a", ⟨58, 59⟩, false⟩,
      ⟨"b", ⟨60, 61⟩, true⟩, ⟨"from", ⟨62, 66⟩, false⟩, ⟨"export", ⟨133, 139⟩, false⟩, ⟨"default", ⟨140, 147⟩, false⟩,
      ⟨"function", ⟨148, 156⟩, false⟩, ⟨"MDXContent", ⟨157, 167⟩, false⟩, ⟨"props", ⟨168, 173⟩, false⟩,
      ⟨"return", ⟨179, 185⟩, false⟩, ⟨"b", ⟨211, 212⟩, false⟩] := by decide +kernel
  have hall : bindings text = [b, component] := by
    rw [bindings, hread, List.mergeSort_of_pairwise (by decide)]
  have honce : (analyze script).bindings.filter (·.name == b.name) = [b] := by
    show ((bindings text).filter _).filter _ = _
    rw [hall]
    decide
  have hplace : script.mapping.toGeneratedCursor 22 = some 211 ∧ script.mapping.toGeneratedCursor 9 = some 60 := by
    simp only [Mapping.toGeneratedCursor, Mapping.bySource]
    rw [List.mergeSort_of_pairwise (by decide)]
    decide
  have huse : (analyze script).resolve? 211 = some (⟨"b", ⟨211, 212⟩, false⟩, b) :=
    resolve?_of_bound_once honce (hidentifiers ▸ by decide) rfl rfl (by decide) (by decide)
  have hproperty : ⟨"b", ⟨60, 61⟩, true⟩ ∈ identifiers script.text := hidentifiers ▸ by decide
  have hdeclaration : (analyze script).resolve? 60 = none := by
    have hat : identifierAt? (analyze script).identifiers 60 = some ⟨"b", ⟨60, 61⟩, true⟩ :=
      identifierAt?_eq_some_iff.mpr ⟨hproperty, by decide, by decide⟩
    simp [Analysis.resolve?, hat]
  have hcarried : carryEdits script (sortedChanges script b "c") = [⟨⟨9, 10⟩, "c"⟩, ⟨⟨22, 23⟩, "c"⟩] := by
    have hchanges : changes (identifiers text) b "c" = [⟨⟨60, 61⟩, "c"⟩, ⟨⟨211, 212⟩, "c"⟩] := by
      rw [hidentifiers]
      decide
    rw [sortedChanges, hchanges, List.mergeSort_of_pairwise (by decide)]
    decide
  obtain ⟨rest, hdocuments⟩ := List.head?_eq_some_iff.mp hfirst
  refine ⟨root, script, rest, b, htree, hdocuments, honce, ⟨_, hproperty, rfl, rfl⟩, hname,
    ?_, ?_⟩
  · rw [rename_of_head hf htree hfirst hname, hplace.1, Option.bind_some, huse, Option.elim_some, hcarried]
  · rw [rename_of_head hf htree hfirst hname, hplace.2, Option.bind_some, hdeclaration, Option.elim_none]

end Mdx

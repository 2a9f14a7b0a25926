/-
What a cursor is answered about. The script view tells what is shown at a place by
the identifier that the place is in or at an end of, and a completion takes the
place of the one that ends there. A cursor goes to a place of an identifier from
the same place of the word that it comes from, and from nowhere else. So the
answers are about the word at the cursor (`answers_keep_to_cursor`), also where
the place behind the cursor is of another entry, or of none.
-/
import Mdx.Proofs.Feature.Served
import Mdx.Proofs.Service.Declaration
import Mdx.Proofs.View.Cursor

namespace Mdx

open Script ScriptService

namespace ScriptService

variable {d : VirtualDocument} {text : List Char} {i : Identifier} {b : Binding} {place : Nat}

/-- What is found at a place of an identifier is found at its start. -/
theorem resolve?_of_mem (hi : i ∈ identifiers d.text) (hlo : i.span.start ≤ place) (hhi : place ≤ i.span.stop) :
    (analyze d).resolve? place = (analyze d).resolve? i.span.start := by
  have hne := (standsIn_identifiers d.text i hi).nonempty
  have hat := identifierAt?_eq_some_iff.mpr ⟨hi, hlo, hhi⟩
  have hstart := identifierAt?_eq_some_iff.mpr ⟨hi, Nat.le_refl _, Nat.le_of_lt hne⟩
  simp only [Analysis.resolve?, analyze, hat, hstart]

/-- The identifier that ends at a place. -/
def typedAt? (ids : List Identifier) (place : Nat) : Option Identifier :=
  ids.find? fun id => id.span.start < place && id.span.stop == place

theorem typedAt?_eq_some_iff : typedAt? (identifiers text) place = some i ↔
    i ∈ identifiers text ∧ i.span.stop = place := by
  have hends : ∀ {j}, j ∈ identifiers text → j.span.stop = place → j.span.start ≤ place ∧ place ≤ j.span.stop := by
    rintro j hj rfl
    exact ⟨Nat.le_of_lt (standsIn_identifiers text j hj).nonempty, Nat.le_refl _⟩
  constructor
  · intro h
    have hstop := List.find?_some h
    simp only [Bool.and_eq_true, beq_iff_eq] at hstop
    exact ⟨List.mem_of_find?_eq_some h, hstop.2⟩
  · rintro ⟨hi, rfl⟩
    cases hfind : typedAt? (identifiers text) i.span.stop with
    | none =>
      have := List.find?_eq_none.mp hfind i hi
      simp [(standsIn_identifiers text i hi).nonempty] at this
    | some j =>
      have hstop := List.find?_some hfind
      simp only [Bool.and_eq_true, beq_iff_eq] at hstop
      have hj := List.mem_of_find?_eq_some hfind
      rw [identifier_eq_of_touching hi hj (hends hi rfl) (hends hj hstop.2)]

theorem analyzeAt_eq (hlanguage : d.language = .script) (hle : place ≤ byteLength d.text) :
    analyzeAt d place = .ok (analyze d) := by
  simp only [analyzeAt, expectLanguage, checkOffset, hlanguage, hle, if_true]
  rfl

/-- All completions at a place take the place of the identifier that ends there. -/
theorem editRange_of_completions {items : List Completion} (h : completions d place = .ok items) :
    ∀ item ∈ items, item.editRange = (typedAt? (identifiers d.text) place).map (·.span) := by
  obtain ⟨a, ha, h⟩ := ok_of_bind h
  obtain rfl : analyze d = a := by
    obtain ⟨_, -, ha⟩ := ok_of_bind ha
    obtain ⟨_, -, ha⟩ := ok_of_bind ha
    exact Except.ok.inj ha
  dsimp only at h
  split at h
  · cases h
    simp
  · cases h
    intro item hitem
    obtain ⟨b, -, rfl⟩ := List.mem_map.mp hitem
    rfl

/-- What is shown of a binding: its statement and its kind. -/
def shownText (text : List Char) (b : Binding) : String :=
  "\x60\x60\x60javascript\n" ++ String.ofList (slice text b.statement) ++ "\n\x60\x60\x60\n" ++ b.detail

end ScriptService

namespace Feature

variable {f : VirtualFile} {reported : DiagnosticsOptions} {script : VirtualDocument} {offset : Nat}
  {others : List (Service × VirtualDocument × Nat)}

/-- A question about a cursor that the service for prose has no answer to is for the script view. -/
theorem findSome?_servedAt {α : Type} {answer : Service × VirtualDocument × Nat → Option α}
    (hothers : ∀ p ∈ others, p.1 = MarkdownService.service) (hserved : servedAt f (.standard reported) offset =
      (script.mapping.toGeneratedCursor offset).toList.map (ScriptService.service reported, script, ·) ++ others)
    (hprose : ∀ d place, answer (MarkdownService.service, d, place) = none) :
    (servedAt f (.standard reported) offset).findSome? answer =
      (script.mapping.toGeneratedCursor offset).bind fun place => answer (ScriptService.service reported, script, place) := by
  have hnone : others.findSome? answer = none := by
    refine List.findSome?_eq_none_iff.mpr fun ⟨s, d, place⟩ hp => ?_
    obtain rfl : s = MarkdownService.service := hothers _ hp
    exact hprose d place
  rw [hserved, List.findSome?_append, hnone, Option.or_none]
  cases script.mapping.toGeneratedCursor offset with
  | none => rfl
  | some place => simp

/-- The completions of a view as completions of the document, without those whose place does not come back. -/
def carryCompletions (d : VirtualDocument) (items : List Completion) : List Completion :=
  items.filterMap fun item => (carryOptional d item.editRange).map fun editRange => { item with editRange }

section Served

variable {source : List Char} (hothers : ∀ p ∈ others, p.1 = MarkdownService.service)
  (hserved : servedAt f (.standard reported) offset =
    (script.mapping.toGeneratedCursor offset).toList.map (ScriptService.service reported, script, ·) ++ others)
include hothers hserved

/-- **A hover is that of the script view, carried back.** -/
theorem hover_eq_some_iff (hfaithful : script.mapping.Faithful source script.text)
    (hscript : script.language = .script) {shown : Hover} :
    hover f (.standard reported) offset = some shown ↔ ∃ place i b s,
      script.mapping.toGeneratedCursor offset = some place ∧ (analyze script).resolve? place = some (i, b) ∧
        script.mapping.toSourceSpan i.span = some s ∧ shown = ⟨some s, shownText script.text b⟩ := by
  rw [hover, findSome?_servedAt hothers hserved fun _ _ => rfl]
  simp only [Option.bind_eq_some_iff, exists_and_left]
  refine exists_congr fun place => and_congr_right fun hplace => ?_
  have hanswer := ScriptService.hover_eq hscript (Mapping.toGeneratedCursor_le hfaithful hplace)
  dsimp only [ScriptService.service]
  rw [hanswer]
  cases hfound : (analyze script).resolve? place with
  | none => simp
  | some found =>
    obtain ⟨i, b⟩ := found
    constructor
    · intro h
      obtain ⟨range, hrange, rfl⟩ := Option.map_eq_some_iff.mp h
      obtain ⟨s, hs, rfl⟩ := Option.map_eq_some_iff.mp hrange
      exact ⟨i, b, rfl, s, hs, rfl⟩
    · rintro ⟨i, b, heq, s, hs, rfl⟩
      cases heq
      show ((script.mapping.toSourceSpan i.span).map some).map _ = _
      rw [hs]
      rfl

/-- **Completions are those of the script view, carried back.** -/
theorem completions_eq : completions f (.standard reported) offset =
    (script.mapping.toGeneratedCursor offset).elim [] fun place =>
      carryCompletions script ((ScriptService.completions script place).toOption.getD []) := by
  rw [completions, findSome?_servedAt hothers hserved fun _ _ => rfl]
  cases script.mapping.toGeneratedCursor offset with
  | none => rfl
  | some place =>
    rw [Option.bind_some, Option.elim_some]
    dsimp only [ScriptService.service]
    cases ScriptService.completions script place with
    | error _ => rfl
    | ok items =>
      dsimp only [Except.toOption, Option.getD_some, carryCompletions]
      split
      · next hempty => exact (List.isEmpty_iff.mp hempty).symm
      · rfl

/-- A completion takes the place of the identifier that ends at the cursor, if that comes back. -/
theorem editRange_of_mem {item : Completion} (hitem : item ∈ completions f (.standard reported) offset) :
    ∃ place, script.mapping.toGeneratedCursor offset = some place ∧
      carryOptional script ((typedAt? (identifiers script.text) place).map (·.span)) = some item.editRange := by
  rw [completions_eq hothers hserved] at hitem
  cases hplace : script.mapping.toGeneratedCursor offset with
  | none =>
    rw [hplace] at hitem
    cases hitem
  | some place =>
    rw [hplace, Option.elim_some] at hitem
    obtain ⟨given, hgiven, hitem⟩ := List.mem_filterMap.mp hitem
    obtain ⟨range, hcarried, rfl⟩ := Option.map_eq_some_iff.mp hitem
    cases hitems : ScriptService.completions script place with
    | error _ =>
      rw [hitems] at hgiven
      cases hgiven
    | ok items =>
      rw [hitems] at hgiven
      exact ⟨place, rfl, editRange_of_completions hitems given hgiven ▸ hcarried⟩

end Served

end Feature

open Feature

/-- The identifier of the script view is a whole word of the document, at the span `s` of it. -/
structure ComesFrom (source : List Char) (script : VirtualDocument) (i : Identifier) (s : Span) : Prop where
  mem : i ∈ identifiers script.text
  origin : script.mapping.toSourceSpan i.span = some s
  whole : IsRun source s
  reads : slice source s = i.name.toList

/-- The identifier of the script view refers to the binding, which binds its name. -/
structure RefersTo (script : VirtualDocument) (i : Identifier) (b : Binding) : Prop where
  resolves : (analyze script).resolve? i.span.start = some (i, b)
  bound : b ∈ (analyze script).bindings
  named : b.name = i.name

namespace ScriptView

variable {options : CompileOptions} {source : List Char} {root : Node} {script : VirtualDocument} {i : Identifier}
  {s : Span} {o place : Nat}

theorem comesFrom (h : ScriptView options source root script) (hi : i ∈ identifiers script.text)
    (hs : script.mapping.toSourceSpan i.span = some s) : ComesFrom source script i s :=
  ⟨hi, hs, (h.isRun_origin hi hs).1, (h.isRun_origin hi hs).2⟩

/-- A word is as long as its identifier. -/
theorem length_eq (h : ScriptView options source root script) (hi : ComesFrom source script i s) :
    s.stop + i.span.start = s.start + i.span.stop := by
  have hstands := standsIn_identifiers script.text i hi.mem
  obtain ⟨e, -, ⟨hlo, -⟩, rfl⟩ := h.exists_entry hstands hi.origin
  have := hstands.nonempty
  simp only [Entry.part, Entry.generatedSpan, Span.ofLength] at hlo ⊢
  omega

/-- **A cursor goes to a place of an identifier, its ends among them, exactly from the same place of its word.** -/
theorem cursor_iff (h : ScriptView options source root script) (hi : ComesFrom source script i s) :
    script.mapping.toGeneratedCursor o = some place ∧ i.span.start ≤ place ∧ place ≤ i.span.stop ↔
      s.start ≤ o ∧ o ≤ s.stop ∧ place + s.start = o + i.span.start := by
  have hstands := standsIn_identifiers script.text i hi.mem
  have hne := hstands.nonempty
  obtain ⟨e, he, hw, rfl⟩ := h.exists_entry hstands hi.origin
  have hbounds := hw
  obtain ⟨hlo, hhi⟩ := hbounds
  simp only [Entry.generatedSpan, Span.ofLength] at hlo hhi
  constructor
  · rintro ⟨hplace, hstart, hstop⟩
    have := h.origin_of_toGeneratedCursor he hw hne hplace hstart hstop
    simp only [Entry.part]
    omega
  · rintro ⟨hstart, hstop, hplace⟩
    have hgo := h.toGeneratedCursor_of_within he hstands.inText hne (hstands.slice_eq ▸ hstands.chars) hw hstart hstop
    simp only [Entry.part] at hstart hstop hplace
    obtain rfl : place = e.shift o := by
      rw [Entry.shift]
      omega
    exact ⟨hgo, by omega, by omega⟩

section Served

variable {f : VirtualFile} {reported : DiagnosticsOptions} {offset : Nat}
  {others : List (Service × VirtualDocument × Nat)} (h : ScriptView options source root script)
  (hothers : ∀ p ∈ others, p.1 = MarkdownService.service)
  (hserved : servedAt f (.standard reported) offset =
    (script.mapping.toGeneratedCursor offset).toList.map (ScriptService.service reported, script, ·) ++ others)
include h hothers hserved

theorem hover_iff {shown : Hover} : hover f (.standard reported) offset = some shown ↔
    ∃ s i b, ComesFrom source script i s ∧ s.start ≤ offset ∧ offset ≤ s.stop ∧ RefersTo script i b ∧
      shown = ⟨some s, shownText script.text b⟩ := by
  rw [hover_eq_some_iff hothers hserved h.faithful h.layout.language]
  constructor
  · rintro ⟨place, i, b, s, hplace, hfound, hs, rfl⟩
    obtain ⟨⟨hi, hlo, hhi⟩, -, hb, hname⟩ := mem_of_resolve? hfound
    have hcomes := h.comesFrom hi hs
    obtain ⟨hstart, hstop, -⟩ := (h.cursor_iff hcomes).mp ⟨hplace, hlo, hhi⟩
    exact ⟨s, i, b, hcomes, hstart, hstop, ⟨resolve?_of_mem hi hlo hhi ▸ hfound, hb, hname.symm⟩, rfl⟩
  · rintro ⟨s, i, b, hcomes, hstart, hstop, hrefers, rfl⟩
    have hplace : i.span.start + (offset - s.start) + s.start = offset + i.span.start := by omega
    obtain ⟨hplace, hlo, hhi⟩ := (h.cursor_iff hcomes).mpr ⟨hstart, hstop, hplace⟩
    exact ⟨_, i, b, s, hplace, resolve?_of_mem hcomes.mem hlo hhi ▸ hrefers.resolves, hcomes.origin, rfl⟩

theorem editRange_iff {item : Completion} (hitem : item ∈ completions f (.standard reported) offset) :
    item.editRange = some s ↔ s.start < offset ∧ s.stop = offset ∧ ∃ i, ComesFrom source script i s := by
  obtain ⟨place, hplace, hcarried⟩ := editRange_of_mem hothers hserved hitem
  constructor
  · intro hrange
    rw [hrange] at hcarried
    cases htyped : typedAt? (identifiers script.text) place with
    | none =>
      rw [htyped] at hcarried
      cases hcarried
    | some i =>
      rw [htyped] at hcarried
      obtain ⟨s', hs, heq⟩ := Option.map_eq_some_iff.mp hcarried
      cases heq
      obtain ⟨hi, rfl⟩ := typedAt?_eq_some_iff.mp htyped
      have hcomes := h.comesFrom hi hs
      have hlength := h.length_eq hcomes
      obtain ⟨-, -, hmeets⟩ := (h.cursor_iff hcomes).mp
        ⟨hplace, Nat.le_of_lt (standsIn_identifiers _ i hi).nonempty, Nat.le_refl _⟩
      have := hcomes.whole.lt
      exact ⟨by omega, by omega, i, hcomes⟩
  · rintro ⟨hlt, rfl, i, hcomes⟩
    have hlength : i.span.stop + s.start = s.stop + i.span.start := by
      have := h.length_eq hcomes
      omega
    obtain ⟨hends, -, -⟩ := (h.cursor_iff hcomes).mpr ⟨Nat.le_of_lt hlt, Nat.le_refl _, hlength⟩
    obtain rfl : i.span.stop = place := Option.some.inj (hends.symm.trans hplace)
    rw [typedAt?_eq_some_iff.mpr ⟨hcomes.mem, rfl⟩, Option.map_some, carryOptional, hcomes.origin] at hcarried
    exact (Option.some.inj hcarried).symm

end Served

end ScriptView

/-- **Answers are about the word at the cursor.** In a document that parses, with the services in use by
default, a hover at a place is of a whole word that the place is in or at an end of: an identifier of the script
view comes from it, and a binding of its name is shown; and for each such word there is one. A completion takes
the place of such a word if and only if the word ends at the place. -/
theorem answers_keep_to_cursor {f : VirtualFile} {root : Node} (hf : f.UpToDate) (h : f.compiled.tree = .ok root)
    (reported : DiagnosticsOptions) : ∃ script rest, f.compiled.documents = ⟨script, []⟩ :: rest ∧
      script.language = .script ∧ ∀ offset,
        (∀ shown, hover f (.standard reported) offset = some shown ↔ ∃ s i b, ComesFrom f.source script i s ∧
          s.start ≤ offset ∧ offset ≤ s.stop ∧ RefersTo script i b ∧ shown = ⟨some s, shownText script.text b⟩) ∧
        ∀ item ∈ completions f (.standard reported) offset, ∀ s, item.editRange = some s ↔
          s.start < offset ∧ s.stop = offset ∧ ∃ i, ComesFrom f.source script i s := by
  rw [hf] at h
  obtain ⟨script, rest, hdocuments, hview, hserved⟩ := servedAt_of_parse reported hf (parse_of_tree h)
  refine ⟨script, rest, hdocuments, hview.layout.language, fun offset => ?_⟩
  obtain ⟨others, hothers, hserved⟩ := hserved offset
  exact ⟨fun _ => hview.hover_iff hothers hserved, fun _ hitem _ => hview.editRange_iff hothers hserved hitem⟩

/-- A name that ends a region of the document, with a byte of no region behind it, and a use in the other region. -/
theorem answers_keep_to_cursor_end :
    let f := VirtualFile.create "jsx" "export let a\n\n\x7ba\x7d".toList {}
    let shown (s : Span) : Hover := ⟨some s, "\x60\x60\x60javascript\nexport let a\n\x60\x60\x60\nexport let"⟩
    f.UpToDate ∧ (∃ root, f.compiled.tree = .ok root) ∧
      (∀ o, 11 ≤ o → o ≤ 12 → hover f (.standard {}) o = some (shown ⟨11, 12⟩)) ∧
      (∀ o, 15 ≤ o → o ≤ 16 → hover f (.standard {}) o = some (shown ⟨15, 16⟩)) ∧
      completions f (.standard {}) 12 ≠ [] ∧
      ∀ item ∈ completions f (.standard {}) 12, item.editRange = some ⟨11, 12⟩ := by
  intro f shown
  let root : Node := .branch .root ⟨0, 17⟩ [.branch .moduleBlock ⟨0, 12⟩ [.leaf .moduleStatement ⟨0, 12⟩],
    .leaf (.blockExpression ⟨⟨15, 16⟩, false⟩) ⟨14, 17⟩]
  let text := ["/* @jsxRuntime automatic\n", "@jsxImportSource react */\n", "export let a\n\n   ",
    "\n/** @param \x7b\x7breadonly ", "[key: string]: unknown\x7d\x7d ", "props */\n",
    "export default function ", "MDXContent(props) \x7b\n", "  return <>\n", "            \n\n\x7ba\x7d",
    "\n  </>\n\x7d\n"].flatMap String.toList
  let script : VirtualDocument := ⟨"jsx", .script, text, ⟨[⟨0, 51, 12⟩, ⟨14, 195, 3⟩]⟩⟩
  let b : Binding := ⟨"a", ⟨62, 63⟩, ⟨51, 63⟩, .exported "let"⟩
  let component : Binding := ⟨"MDXContent", ⟨149, 159⟩, ⟨125, 168⟩, .exported "function"⟩
  have hf : f.UpToDate := upToDate_create _ _ _
  have htree : f.compiled.tree = .ok root := ok_of_toOption (by decide +kernel)
  have hfirst : f.compiled.documents.head? = some ⟨script, []⟩ := by decide +kernel
  have hread : readLines readImport? 0 (Cursor.ofText text).lines ++
      readLines readExport? 0 (Cursor.ofText text).lines = [b, component] := by decide +kernel
  have hidentifiers : identifiers text = [⟨"export", ⟨51, 57⟩, false⟩, ⟨"let", ⟨58, 61⟩, false⟩,
      ⟨"a", ⟨62, 63⟩, false⟩, ⟨"export", ⟨125, 131⟩, false⟩, ⟨"default", ⟨132, 139⟩, false⟩,
      ⟨"function", ⟨140, 148⟩, false⟩, ⟨"MDXContent", ⟨149, 159⟩, false⟩, ⟨"props", ⟨160, 165⟩, false⟩,
      ⟨"return", ⟨171, 177⟩, false⟩, ⟨"a", ⟨196, 197⟩, false⟩] := by decide +kernel
  have hbindings : (analyze script).bindings = [b] := by
    show (bindings text).filter _ = _
    rw [bindings, hread, List.mergeSort_of_pairwise (by decide)]
    decide
  have hanalyze : analyze script = ⟨text, [b], identifiers text⟩ := by
    rw [← hbindings]
    rfl
  have hplace : script.mapping.toGeneratedCursor 12 = some 63 := by
    rw [Mapping.toGeneratedCursor, Mapping.bySource, List.mergeSort_of_pairwise (by decide)]
    decide
  have heq : ∀ {script' rest}, f.compiled.documents = ⟨script', []⟩ :: rest → script' = script := fun hdocuments =>
    congrArg DocumentGroup.main (Option.some.inj (Eq.trans (by rw [hdocuments]; rfl) hfirst))
  obtain ⟨script', rest, hdocuments, hview, hserved⟩ := servedAt_of_parse {} hf (parse_of_tree (hf ▸ htree))
  obtain rfl := heq hdocuments
  obtain ⟨script', rest, hdocuments, -, hanswers⟩ := answers_keep_to_cursor hf htree {}
  obtain rfl := heq hdocuments
  have hname : ComesFrom f.source script ⟨"a", ⟨62, 63⟩, false⟩ ⟨11, 12⟩ :=
    hview.comesFrom (hidentifiers ▸ by decide) (by decide)
  have huse : ComesFrom f.source script ⟨"a", ⟨196, 197⟩, false⟩ ⟨15, 16⟩ :=
    hview.comesFrom (hidentifiers ▸ by decide) (by decide)
  have hrefers : ∀ i ∈ [(⟨"a", ⟨62, 63⟩, false⟩ : Identifier), ⟨"a", ⟨196, 197⟩, false⟩], RefersTo script i b := by
    intro i hi
    refine ⟨?_, hbindings ▸ List.mem_singleton_self b, ?_⟩
    · rw [hanalyze, hidentifiers]
      revert i
      decide
    · revert i
      decide
  have htext : shownText script.text b = "\x60\x60\x60javascript\nexport let a\n\x60\x60\x60\nexport let" := by decide +kernel
  have hshown : ∀ s, shown s = ⟨some s, shownText script.text b⟩ := fun s => by rw [htext]
  have hoffered : ScriptService.completions script 63 =
      .ok [⟨"a", .plainVariable, some "export let", some ⟨62, 63⟩⟩] := by
    rw [ScriptService.completions, analyzeAt_eq rfl (by decide +kernel), hanalyze, hidentifiers]
    decide +kernel
  have hoffers : completions f (.standard {}) 12 ≠ [] := by
    obtain ⟨others, hothers, hserved⟩ := hserved 12
    rw [completions_eq hothers hserved, hplace, Option.elim_some, hoffered]
    decide
  exact ⟨hf, ⟨root, htree⟩,
    fun o hlo hhi => ((hanswers o).1 _).mpr ⟨_, _, b, hname, hlo, hhi, hrefers _ (by decide), hshown _⟩,
    fun o hlo hhi => ((hanswers o).1 _).mpr ⟨_, _, b, huse, hlo, hhi, hrefers _ (by decide), hshown _⟩, hoffers,
    fun item hitem => ((hanswers 12).2 item hitem _).mpr ⟨by decide, rfl, _, hname⟩⟩

end Mdx

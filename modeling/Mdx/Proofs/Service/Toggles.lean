/-
What the toggles of the diagnostics do. About a script view three things are
reported: names that were bound before, imports that nothing refers to and
components that are not bound. Each of the last two has a toggle, and is reported
wherever it is found or nowhere at all (`Reports`).

Nothing else that is answered depends on the toggles, and only script and prose
have a service (`Serves`).
-/
import Mathlib.Logic.Basic
import Mdx.Proofs.Script.Binding
import Mdx.Proofs.Service.Reference
import Mdx.Service.Standard

namespace Mdx

open Script

namespace ScriptService

variable {found found' : List Diagnostic} {code : String} {s : Span} {seen bs : List Binding}

/-- A diagnostic with that code is about the place. -/
def ReportedAt (found : List Diagnostic) (code : String) (s : Span) : Prop :=
  ∃ x ∈ found, x.code = some code ∧ x.range = s

theorem reportedAt_append :
    ReportedAt (found ++ found') code s ↔ ReportedAt found code s ∨ ReportedAt found' code s := by
  simp only [ReportedAt, List.mem_append, or_and_right, exists_or]

theorem reportedAt_of_perm (h : found.Perm found') : ReportedAt found code s ↔ ReportedAt found' code s := by
  simp only [ReportedAt, h.mem_iff]

theorem reportedAt_ite {on : Bool} :
    ReportedAt (if on then found else []) code s ↔ on = true ∧ ReportedAt found code s := by
  cases on <;> simp [ReportedAt]

/-- Where all diagnostics have another code, none has this one. -/
theorem not_reportedAt {other : String} (h : ∀ x ∈ found, x.code = some other) (hne : other ≠ code) :
    ¬ ReportedAt found code s := by
  rintro ⟨x, hx, hcode, -⟩
  exact hne (Option.some.inj ((h x hx).symm.trans hcode))

/-! ## Each kind by itself -/

theorem code_of_mem_duplicates {x : Diagnostic} (h : x ∈ duplicates seen bs) :
    x.code = some "duplicate-binding" := by
  fun_induction duplicates seen bs with
  | case1 => cases h
  | case2 seen b bs first _ ih =>
    rcases List.mem_cons.mp h with rfl | h
    · rfl
    · exact ih h
  | case3 seen b bs _ ih => exact ih h

theorem code_of_mem_unusedImports {a : Analysis} {x : Diagnostic} (h : x ∈ unusedImports a) :
    x.code = some "unused-import" := by
  obtain ⟨b, -, rfl⟩ := List.mem_map.mp h
  rfl

theorem code_of_mem_undefinedComponents {a : Analysis} {x : Diagnostic} (h : x ∈ undefinedComponents a) :
    x.code = some "undefined-component" := by
  obtain ⟨i, -, rfl⟩ := List.mem_map.mp h
  rfl

/-- A name is bound at the place, and before that it is one of `names` or bound. -/
def BoundAgainAt (names : List String) (bs : List Binding) (s : Span) : Prop :=
  ∃ front b back, bs = front ++ b :: back ∧ b.span = s ∧ b.name ∈ names ++ front.map Binding.name

theorem boundAgainAt_cons {names : List String} {b : Binding} : BoundAgainAt names (b :: bs) s ↔
    b.span = s ∧ b.name ∈ names ∨ BoundAgainAt (names ++ [b.name]) bs s := by
  constructor
  · rintro ⟨front, c, back, hsplit, hspan, hname⟩
    cases front with
    | nil =>
      obtain ⟨rfl, -⟩ := List.cons.inj hsplit
      exact .inl ⟨hspan, by simpa using hname⟩
    | cons first front =>
      obtain ⟨rfl, rfl⟩ := List.cons.inj hsplit
      exact .inr ⟨front, c, back, rfl, hspan, by simpa using hname⟩
  · rintro (⟨hspan, hname⟩ | ⟨front, c, back, rfl, hspan, hname⟩)
    · exact ⟨[], b, bs, rfl, hspan, by simpa using hname⟩
    · exact ⟨b :: front, c, back, rfl, hspan, by simpa using hname⟩

/-- One more of some known names changes nothing. -/
theorem boundAgainAt_concat {names : List String} {name : String} (h : name ∈ names) :
    BoundAgainAt (names ++ [name]) bs s ↔ BoundAgainAt names bs s := by
  have hmem : ∀ x (more : List String), x ∈ names ++ [name] ++ more ↔ x ∈ names ++ more := by
    intro x more
    have hname : x = name → x ∈ names := fun hx => hx ▸ h
    simp only [List.mem_append, List.mem_singleton, or_iff_left_of_imp hname]
  simp only [BoundAgainAt, hmem]

theorem reportedAt_duplicates (seen bs : List Binding) :
    ReportedAt (duplicates seen bs) "duplicate-binding" s ↔ BoundAgainAt (seen.map Binding.name) bs s := by
  fun_induction duplicates seen bs with
  | case1 => simp [ReportedAt, BoundAgainAt]
  | case2 seen b bs first hfind ih =>
    have hname : b.name ∈ seen.map Binding.name := by
      have hfirst : first.name = b.name := by simpa using List.find?_some hfind
      exact hfirst ▸ List.mem_map_of_mem (List.mem_of_find?_eq_some hfind)
    rw [boundAgainAt_cons, boundAgainAt_concat hname, ← ih]
    simp [ReportedAt, report, hname]
  | case3 seen b bs hfind ih =>
    have hname : b.name ∉ seen.map Binding.name := by
      rw [List.find?_eq_none] at hfind
      intro hmem
      obtain ⟨c, hc, hcname⟩ := List.mem_map.mp hmem
      exact hfind c hc (by simp [hcname])
    rw [ih, boundAgainAt_cons, List.map_append, List.map_singleton]
    simp [hname]

theorem reportedAt_unusedImports (a : Analysis) : ReportedAt (unusedImports a) "unused-import" s ↔
    ∃ b ∈ a.bindings, b.span = s ∧ b.isImport = true ∧
      ∀ i ∈ a.identifiers, i.isProperty = false → i.name = b.name → i.span = b.span := by
  simp only [ReportedAt, unusedImports, List.mem_map, List.mem_filter, Bool.and_eq_true, List.isEmpty_iff,
    references_eq_nil_iff, exists_exists_and_eq_and, report, true_and]
  constructor
  · rintro ⟨b, ⟨hb, himport, hnone⟩, hspan⟩
    exact ⟨b, hb, hspan, himport, hnone⟩
  · rintro ⟨b, hb, hspan, himport, hnone⟩
    exact ⟨b, ⟨hb, himport, hnone⟩, hspan⟩

theorem reportedAt_undefinedComponents (a : Analysis) :
    ReportedAt (undefinedComponents a) "undefined-component" s ↔
    ∃ i ∈ a.identifiers, i.span = s ∧ precededBy a.text s.start '<' = true ∧
      (∃ c, i.name.toList.head? = some c ∧ isUppercase c = true) ∧ ∀ b ∈ a.bindings, b.name ≠ i.name := by
  simp only [ReportedAt, undefinedComponents, List.mem_map, List.mem_filter, Bool.and_eq_true, Bool.not_eq_true',
    List.any_eq_false, beq_iff_eq, isComponentName, Option.any_eq_true, exists_exists_and_eq_and, report, true_and]
  constructor
  · rintro ⟨i, ⟨hi, ⟨hbracket, hupper⟩, hnone⟩, rfl⟩
    exact ⟨i, hi, rfl, hbracket, hupper, hnone⟩
  · rintro ⟨i, hi, rfl, hbracket, hupper, hnone⟩
    exact ⟨i, ⟨hi, ⟨hbracket, hupper⟩, hnone⟩, rfl⟩

/-! ## All that is reported -/

/-- What is reported about a script view, under toggles. Each kind of diagnostic is told by the places that
it is about. -/
structure Reports (toggles : DiagnosticsOptions) (d : VirtualDocument) (found : List Diagnostic) : Prop where
  codes : ∀ x ∈ found, x.code = some "duplicate-binding" ∨ x.code = some "unused-import" ∨
    x.code = some "undefined-component"
  /-- Whatever the toggles. -/
  duplicates : ∀ s, ReportedAt found "duplicate-binding" s ↔ ∃ front b back,
    (analyze d).bindings = front ++ b :: back ∧ b.span = s ∧ b.name ∈ front.map Binding.name
  imports : ∀ s, ReportedAt found "unused-import" s ↔ toggles.unusedImports = true ∧
    ∃ b ∈ (analyze d).bindings, b.span = s ∧ b.isImport = true ∧
      ∀ i ∈ identifiers d.text, i.isProperty = false → i.name = b.name → i.span = b.span
  components : ∀ s, ReportedAt found "undefined-component" s ↔ toggles.undefinedComponents = true ∧
    ∃ i ∈ identifiers d.text, i.span = s ∧ precededBy d.text s.start '<' = true ∧
      (∃ c, i.name.toList.head? = some c ∧ isUppercase c = true) ∧ ∀ b ∈ (analyze d).bindings, b.name ≠ i.name

/-- **Each script view is reported about, as the toggles say.** -/
theorem exists_reports (toggles : DiagnosticsOptions) {d : VirtualDocument} (h : d.language = .script) :
    ∃ found, diagnostics toggles d = .ok found ∧ Reports toggles d found := by
  let again := duplicates [] (analyze d).bindings
  let imports := if toggles.unusedImports then unusedImports (analyze d) else []
  let components := if toggles.undefinedComponents then undefinedComponents (analyze d) else []
  have hagain : ∀ x ∈ again, x.code = some "duplicate-binding" := fun x => code_of_mem_duplicates
  have himports : ∀ x ∈ imports, x.code = some "unused-import" := fun x hx =>
    code_of_mem_unusedImports (List.mem_ite_nil_right.mp hx).2
  have hcomponents : ∀ x ∈ components, x.code = some "undefined-component" := fun x hx =>
    code_of_mem_undefinedComponents (List.mem_ite_nil_right.mp hx).2
  have hall : ∀ code s, ReportedAt ((again ++ imports ++ components).mergeSort fun x y =>
      x.range.start ≤ y.range.start) code s ↔
        (ReportedAt again code s ∨ ReportedAt imports code s) ∨ ReportedAt components code s := by
    intro code s
    rw [reportedAt_of_perm (List.mergeSort_perm _ _), reportedAt_append, reportedAt_append]
  refine ⟨_, by simp only [diagnostics, expectLanguage, h, if_true]; rfl, ?_, fun s => ?_, fun s => ?_,
    fun s => ?_⟩
  · intro x hx
    rcases List.mem_append.mp ((List.mergeSort_perm _ _).mem_iff.mp hx) with hx | hx
    · exact (List.mem_append.mp hx).imp (hagain x) fun hx => .inl (himports x hx)
    · exact .inr (.inr (hcomponents x hx))
  · rw [hall, or_iff_left (not_reportedAt hcomponents (by decide)),
      or_iff_left (not_reportedAt himports (by decide))]
    exact reportedAt_duplicates [] _
  · rw [hall, or_iff_left (not_reportedAt hcomponents (by decide)),
      or_iff_right (not_reportedAt hagain (by decide)), reportedAt_ite, reportedAt_unusedImports]
    rfl
  · rw [hall, or_iff_right (not_or.mpr ⟨not_reportedAt hagain (by decide), not_reportedAt himports (by decide)⟩),
      reportedAt_ite, reportedAt_undefinedComponents]
    rfl

end ScriptService

open ScriptService

/-- What the services in use answer under toggles. -/
structure Serves (toggles : DiagnosticsOptions) (r : Registry) : Prop where
  languages : r.languages = [.script, .markdown]
  prose : r.service? .markdown = some MarkdownService.service
  /-- The service for script reports as the toggles say, and answers all else as it does under any. -/
  script : ∃ service, r.service? .script = some service ∧
    (∀ d, d.language = .script → ∃ found, service.diagnostics d = .ok found ∧ Reports toggles d found) ∧
    ∀ others, service = { ScriptService.service others with diagnostics := service.diagnostics }

theorem serves_standard (toggles : DiagnosticsOptions) : Serves toggles (.standard toggles) where
  languages := rfl
  prose := rfl
  script := ⟨ScriptService.service toggles, rfl, fun _ => exists_reports toggles, fun _ => rfl⟩

/-- A script view with an import that nothing refers to and a component that is not bound. -/
def unusedView : VirtualDocument :=
  ⟨"jsx", .script, "import a from 'x'\n<B/>".toList, ⟨[⟨0, 0, 22⟩]⟩⟩

/-- About this view each toggle shows. -/
theorem Serves.shows_toggles {toggles : DiagnosticsOptions} {r : Registry} (h : Serves toggles r) :
    ∃ service found, r.service? .script = some service ∧ service.diagnostics unusedView = .ok found ∧
      ((∃ x ∈ found, x.code = some "unused-import") ↔ toggles.unusedImports = true) ∧
      ((∃ x ∈ found, x.code = some "undefined-component") ↔ toggles.undefinedComponents = true) := by
  obtain ⟨service, hservice, hreports, -⟩ := h.script
  obtain ⟨found, hfound, hall⟩ := hreports unusedView rfl
  let a : Binding := ⟨"a", ⟨7, 8⟩, ⟨0, 17⟩, .imported "x" false⟩
  have ha : a ∈ (analyze unusedView).bindings :=
    List.mem_filter.mpr ⟨mem_bindings.mpr (.inl (by decide +kernel)), by decide +kernel⟩
  have hbound : ∀ b ∈ (analyze unusedView).bindings, b.name ≠ "B" := by
    intro b hb
    have hread : ∀ b ∈ readLines readImport? 0 (Cursor.ofText unusedView.text).lines ++
        readLines readExport? 0 (Cursor.ofText unusedView.text).lines, b.name ≠ "B" := by decide +kernel
    exact hread b (List.mem_append.mpr (mem_bindings.mp (List.mem_filter.mp hb).1))
  have hcomponent : (⟨"B", ⟨19, 20⟩, false⟩ : Identifier) ∈ identifiers unusedView.text := by decide +kernel
  refine ⟨service, found, hservice, hfound, ⟨fun ⟨x, hx, hcode⟩ => ?_, fun hon => ?_⟩,
    fun ⟨x, hx, hcode⟩ => ?_, fun hon => ?_⟩
  · exact ((hall.imports x.range).mp ⟨x, hx, hcode, rfl⟩).1
  · obtain ⟨x, hx, hcode, -⟩ := (hall.imports ⟨7, 8⟩).mpr ⟨hon, a, ha, rfl, rfl, by decide +kernel⟩
    exact ⟨x, hx, hcode⟩
  · exact ((hall.components x.range).mp ⟨x, hx, hcode, rfl⟩).1
  · obtain ⟨x, hx, hcode, -⟩ := (hall.components ⟨19, 20⟩).mpr
      ⟨hon, _, hcomponent, rfl, by decide +kernel, ⟨'B', rfl, by decide +kernel⟩, hbound⟩
    exact ⟨x, hx, hcode⟩

end Mdx

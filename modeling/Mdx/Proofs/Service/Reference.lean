/-
What refers to a binding in a script view. An identifier refers to the binding
of its name unless a point stands right before it (`mem_references`). The hints
about unused imports and the changes of a renaming follow from that.

The last point of a spread is a point like any other. So a name that is spread
counts as a property: it keeps no import from being reported as unused, and a
renaming leaves it as it is.
-/
import Mdx.Proofs.Script.Property
import Mdx.Service.Script

namespace Mdx

namespace Script

/-- A place right behind the three points of a spread. -/
def isBehindSpread (text : List Char) (offset : Nat) : Bool :=
  precededBy text offset '.' && precededBy text (offset - 1) '.' && precededBy text (offset - 2) '.'

/-- A place right behind a point that is not the last one of a spread. -/
def isBehindAccess (text : List Char) (offset : Nat) : Bool :=
  precededBy text offset '.' && !isBehindSpread text offset

end Script

namespace ScriptService

open Script

variable {text : List Char} {d : VirtualDocument} {b : Binding} {i : Identifier} {e : TextEdit} {newName : String}

theorem mem_references_iff {ids : List Identifier} :
    i ∈ references ids b ↔ i ∈ ids ∧ i.isProperty = false ∧ i.name = b.name ∧ i.span ≠ b.span := by
  simp [references, and_assoc]

/-- What refers to a binding: the identifiers of its name elsewhere that no point stands before. -/
theorem mem_references : i ∈ references (identifiers text) b ↔ i ∈ identifiers text ∧ i.name = b.name ∧
    i.span ≠ b.span ∧ precededBy text i.span.start '.' = false := by
  rw [mem_references_iff]
  constructor
  · rintro ⟨hi, hproperty, hname, hspan⟩
    exact ⟨hi, hname, hspan, isProperty_eq hi ▸ hproperty⟩
  · rintro ⟨hi, hname, hspan, hpoint⟩
    exact ⟨hi, (isProperty_eq hi).trans hpoint, hname, hspan⟩

/-- Nothing refers to a binding if the other identifiers of its name are properties. -/
theorem references_eq_nil_iff {ids : List Identifier} : references ids b = [] ↔
    ∀ i ∈ ids, i.isProperty = false → i.name = b.name → i.span = b.span := by
  rw [List.eq_nil_iff_forall_not_mem]
  constructor
  · intro h i hi hproperty hname
    exact Classical.byContradiction fun hspan => h i (mem_references_iff.mpr ⟨hi, hproperty, hname, hspan⟩)
  · intro h i hi
    obtain ⟨hi, hproperty, hname, hspan⟩ := mem_references_iff.mp hi
    exact hspan (h i hi hproperty hname)

theorem references_isEmpty {text : List Char} {b : Binding} :
    (references (identifiers text) b).isEmpty = true ↔ ∀ i ∈ identifiers text, i.name = b.name →
      i.span ≠ b.span → precededBy text i.span.start '.' = true := by
  rw [List.isEmpty_iff, references_eq_nil_iff]
  refine forall₂_congr fun i hi => ?_
  rw [isProperty_eq hi]
  cases precededBy text i.span.start '.' <;> simp

/-- The hint that nothing refers to an import. -/
def unusedHint (b : Binding) : Diagnostic :=
  report b.span .hint "unused-import" ("\x60" ++ b.name ++ "\x60 is imported but never used") []

theorem unusedHint_inj {b b' : Binding} (h : unusedHint b = unusedHint b') :
    b.span = b'.span ∧ b.name = b'.name := by
  simp only [unusedHint, report, Diagnostic.mk.injEq, String.append_left_inj, String.append_right_inj] at h
  exact ⟨h.1, h.2.2.2.1⟩

/-- An import is reported as unused if every other identifier of its name is behind a point. -/
theorem unusedHint_mem {d : VirtualDocument} {b : Binding} (hb : b ∈ (analyze d).bindings)
    (himport : b.isImport = true) :
    unusedHint b ∈ unusedImports (analyze d) ↔ ∀ i ∈ identifiers d.text, i.name = b.name →
      i.span ≠ b.span → precededBy d.text i.span.start '.' = true := by
  rw [← references_isEmpty]
  constructor
  · intro h
    obtain ⟨b', hb', heq⟩ := List.mem_map.mp h
    obtain ⟨hspan, hname⟩ := unusedHint_inj heq
    have hempty := (Bool.and_eq_true_iff.mp (List.mem_filter.mp hb').2).2
    simpa [references, analyze, hspan, hname] using hempty
  · intro h
    exact List.mem_map_of_mem (List.mem_filter.mpr ⟨hb, Bool.and_eq_true_iff.mpr ⟨himport, h⟩⟩)

/-- The changes that rename a binding: the bound name, and the identifiers that refer to it. -/
def changes (ids : List Identifier) (b : Binding) (newName : String) : List TextEdit :=
  ⟨b.span, renamedDeclaration b newName⟩ :: (references ids b).map fun i => ⟨i.span, newName⟩

/-- The changes in the order of their places. -/
def sortedChanges (d : VirtualDocument) (b : Binding) (newName : String) : List TextEdit :=
  (changes (identifiers d.text) b newName).mergeSort fun x y => x.range.start ≤ y.range.start

/-- A rename changes the binding that is found at the place. -/
theorem rename_valid {offset : Nat} (hlanguage : d.language = .script) (hoffset : offset ≤ byteLength d.text)
    (hname : isValidName newName.toList = true) : rename d offset newName =
      .ok (((analyze d).resolve? offset).elim [] fun found => sortedChanges d found.2 newName) := by
  simp only [rename, expectLanguage, checkOffset, hlanguage, hoffset, hname, if_true]
  cases (analyze d).resolve? offset with
  | none => rfl
  | some found => rfl

/-- A name that is not valid is an error. -/
theorem rename_invalid {offset : Nat} (hlanguage : d.language = .script) (hoffset : offset ≤ byteLength d.text)
    (hname : isValidName newName.toList = false) : rename d offset newName = .error (.invalidName newName) := by
  simp only [rename, expectLanguage, checkOffset, hlanguage, hoffset, hname, if_true]
  rfl

/-- An identifier of the name that is no property is changed, be it where the name is bound. -/
theorem exists_change (hi : i ∈ identifiers text) (hproperty : i.isProperty = false) (hname : i.name = b.name) :
    ∃ e ∈ changes (identifiers text) b newName, e.range = i.span := by
  by_cases hspan : i.span = b.span
  · exact ⟨_, List.mem_cons_self, hspan.symm⟩
  · refine ⟨⟨i.span, newName⟩, List.mem_cons_of_mem _ (List.mem_map.mpr ⟨i, ?_, rfl⟩), rfl⟩
    exact mem_references_iff.mpr ⟨hi, hproperty, hname, hspan⟩

/-- What is changed is the bound name or an identifier of that name, which becomes the new one. -/
theorem change_cases (he : e ∈ changes (identifiers text) b newName) :
    e = ⟨b.span, renamedDeclaration b newName⟩ ∨
      ∃ i ∈ identifiers text, i.isProperty = false ∧ i.name = b.name ∧ i.span ≠ b.span ∧ e = ⟨i.span, newName⟩ := by
  rcases List.mem_cons.mp he with rfl | he
  · exact .inl rfl
  · obtain ⟨i, hi, rfl⟩ := List.mem_map.mp he
    obtain ⟨hi, hproperty, hname, hspan⟩ := mem_references_iff.mp hi
    exact .inr ⟨i, hi, hproperty, hname, hspan, rfl⟩

/-- A renaming changes the binding and what refers to it. -/
theorem rename_eq {d : VirtualDocument} {offset : Nat} {newName : String} {i : Identifier} {b : Binding}
    (hlanguage : d.language = .script) (hoffset : offset ≤ byteLength d.text)
    (hname : isValidName newName.toList = true) (hb : (analyze d).resolve? offset = some (i, b)) :
    ∃ edits, rename d offset newName = .ok edits ∧ ∀ s, (∃ e ∈ edits, e.range = s) ↔
      s = b.span ∨ ∃ i ∈ references (identifiers d.text) b, i.span = s := by
  refine ⟨_, rename_valid hlanguage hoffset hname, fun s => ?_⟩
  rw [hb]
  simp only [Option.elim, sortedChanges, List.mem_mergeSort, changes, List.mem_cons, or_and_right, exists_or,
    exists_eq_left, List.mem_map]
  refine or_congr eq_comm ⟨?_, fun ⟨i, hi, hspan⟩ => ⟨_, ⟨i, hi, rfl⟩, hspan⟩⟩
  rintro ⟨e, ⟨i, hi, rfl⟩, rfl⟩
  exact ⟨i, hi, rfl⟩

end ScriptService

open Script ScriptService

/-- **An identifier is a property if and only if a point stands right before it.** So it is one as
the points that are no spread say, but right behind a spread. An import is reported as unused if each
other identifier of its name has a point before it, and a renaming changes the binding and those
of its name that have none. -/
theorem properties_behind_points (d : VirtualDocument) :
    (∀ i ∈ identifiers d.text, i.isProperty = precededBy d.text i.span.start '.' ∧
      (i.isProperty = isBehindAccess d.text i.span.start ↔ isBehindSpread d.text i.span.start = false)) ∧
    (∀ b ∈ (analyze d).bindings, b.isImport = true → (unusedHint b ∈ unusedImports (analyze d) ↔
      ∀ i ∈ identifiers d.text, i.name = b.name → i.span ≠ b.span →
        precededBy d.text i.span.start '.' = true)) ∧
    ∀ offset newName i b, d.language = .script → offset ≤ byteLength d.text →
      isValidName newName.toList = true → (analyze d).resolve? offset = some (i, b) →
      ∃ edits, rename d offset newName = .ok edits ∧ ∀ s, (∃ e ∈ edits, e.range = s) ↔
        s = b.span ∨ ∃ i ∈ identifiers d.text, i.name = b.name ∧ i.span ≠ b.span ∧
          precededBy d.text i.span.start '.' = false ∧ i.span = s := by
  refine ⟨fun i hi => ⟨isProperty_eq hi, ?_⟩, fun b hb himport => unusedHint_mem hb himport, ?_⟩
  · rw [isProperty_eq hi, isBehindAccess, isBehindSpread]
    cases precededBy d.text i.span.start '.' <;> cases precededBy d.text (i.span.start - 1) '.' <;> simp
  · intro offset newName i b hlanguage hoffset hname hb
    obtain ⟨edits, hedits, hranges⟩ := rename_eq hlanguage hoffset hname hb
    refine ⟨edits, hedits, fun s => (hranges s).trans (or_congr_right (exists_congr fun i => ?_))⟩
    rw [mem_references]
    simp only [and_assoc]

/-- An import that is used behind a point, and once without. -/
theorem properties_behind_points_member :
    let d : VirtualDocument := ⟨"jsx", .script, "import p from 'x'\n\x7bp.p\x7d\n".toList, ⟨[⟨0, 0, 24⟩]⟩⟩
    let b : Binding := ⟨"p", ⟨7, 8⟩, ⟨0, 17⟩, .imported "x" false⟩
    let i : Identifier := ⟨"p", ⟨7, 8⟩, false⟩
    (i ∈ identifiers d.text ∧ i.isProperty = precededBy d.text 7 '.') ∧
      (b ∈ (analyze d).bindings ∧ b.isImport = true ∧ unusedHint b ∉ unusedImports (analyze d)) ∧
      (d.language = .script ∧ 8 ≤ byteLength d.text ∧ isValidName "q".toList = true ∧
        (analyze d).resolve? 8 = some (i, b)) ∧
      ∃ edits, rename d 8 "q" = .ok edits ∧ (∃ e ∈ edits, e.range = ⟨19, 20⟩) ∧
        ¬ ∃ e ∈ edits, e.range = ⟨21, 22⟩ := by
  intro d b i
  have hi : i ∈ identifiers d.text := by decide +kernel
  have hb : b ∈ (analyze d).bindings := by decide +kernel
  have hoffset : 8 ≤ byteLength d.text := by decide
  have hname : isValidName "q".toList = true := by decide +kernel
  have hresolve : (analyze d).resolve? 8 = some (i, b) := by decide +kernel
  obtain ⟨hproperty, hhint, hrename⟩ := properties_behind_points d
  obtain ⟨edits, hedits, hranges⟩ := hrename 8 "q" i b rfl hoffset hname hresolve
  refine ⟨⟨hi, (hproperty i hi).1⟩, ⟨hb, rfl, fun h => ?_⟩, ⟨rfl, hoffset, hname, hresolve⟩,
    edits, hedits, (hranges _).mpr (.inr ?_), fun h => ?_⟩
  · exact absurd ((hhint b hb rfl).mp h) (by decide +kernel)
  · decide +kernel
  · exact absurd ((hranges _).mp h) (by decide +kernel)

/-- The name in a spread is no property, yet it is taken for one: the import is reported as unused,
and a renaming changes the binding alone. -/
theorem spreads_count_as_properties :
    let d : VirtualDocument := ⟨"jsx", .script, "import p from 'x'\n<a \x7b...p\x7d />\n".toList, ⟨[⟨0, 0, 31⟩]⟩⟩
    let i : Identifier := ⟨"p", ⟨25, 26⟩, true⟩
    (i ∈ identifiers d.text ∧ i.isProperty = true ∧ isBehindAccess d.text i.span.start = false) ∧
      (diagnostics {} d).toOption = some [unusedHint ⟨"p", ⟨7, 8⟩, ⟨0, 17⟩, .imported "x" false⟩] ∧
      (rename d 7 "q").toOption = some [⟨⟨7, 8⟩, "q"⟩] := by
  refine ⟨?_, ?_, ?_⟩ <;> decide +kernel

end Mdx

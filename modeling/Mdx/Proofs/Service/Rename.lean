/-
The changes of a rename in a script view: the bound name itself, and each
identifier that refers to it. An identifier of the name is a whole run, so it
stands where the name is bound or apart from it, and no two changes have a byte in
common (`changes_pairwise`).

If the name is bound once, each of its identifiers refers to the one binding, so
it does not matter where the rename is asked for (`resolve?_of_bound_once`).
-/
import Mdx.Proofs.Service.Declaration
import Mdx.Proofs.Service.Reference

namespace Mdx

open Script

variable {text : List Char} {d : VirtualDocument} {b : Binding} {i : Identifier} {e : TextEdit} {newName : String}

namespace Script

/-- A bound name stands in the text as an identifier does. -/
theorem Binding.StandsIn.asIdentifier (h : b.StandsIn text) (isProperty : Bool) :
    Identifier.StandsIn text ⟨b.name, b.span, isProperty⟩ where
  inText := h.inText
  slice_eq := h.slice_eq
  nonempty := h.lt
  chars ch hch := isIdentifierChar_of_isNameChar ((isValidName_iff.mp h.valid).2 ch hch)

/-- An identifier of a bound name is the bound one, or has no byte in common with it. -/
theorem Binding.StandsIn.eq_or_disjoint (h : b.StandsIn text) (hi : i ∈ identifiers text) (hname : i.name = b.name) :
    i.span = b.span ∨ i.span.Disjoint b.span := by
  have hstands := standsIn_identifiers text i hi
  have hchars : ∀ ch ∈ slice text b.span, isIdentifierChar ch = true := by
    rw [h.slice_eq]
    exact (h.asIdentifier false).chars
  refine ((isRun_of_mem hi).fenced.within_or_disjoint h.inText hchars).imp_left fun hw => ?_
  -- The two are as long as their name.
  have hlength : i.span.length = b.span.length := by
    rw [← hstands.inText.byteLength_slice, ← h.inText.byteLength_slice, hstands.slice_eq, h.slice_eq, hname]
  obtain ⟨hstart, hstop⟩ := hw
  have := hstands.nonempty
  have := h.lt
  generalize i.span = s at *
  generalize b.span = t at *
  obtain ⟨lo, hi⟩ := s
  obtain ⟨lo', hi'⟩ := t
  simp only [Span.length, Span.mk.injEq] at *
  omega

/-- The characters from an offset on, with a blank for each one in a comment or a string of the text. -/
def blankHidden (text : List Char) : Nat → List Char → List Char
  | _, [] => []
  | offset, ch :: cs => (if IsHidden text offset then ' ' else ch) :: blankHidden text (offset + ch.utf8Size) cs

/-- The clause of an import up to the bound name, with blanks for comments and strings. -/
def Binding.codeLead (text : List Char) (b : Binding) : List Char :=
  (blankHidden text b.statement.start (slice text ⟨b.statement.start, b.span.start⟩)).drop "import".length

end Script

namespace ScriptService

/-- The old name stands at each change. -/
theorem standsIn_change (hb : b.StandsIn text) (he : e ∈ changes (identifiers text) b newName) :
    Identifier.StandsIn text ⟨b.name, e.range, false⟩ := by
  rcases change_cases he with rfl | ⟨i, hi, -, hname, -, rfl⟩
  · exact hb.asIdentifier false
  · obtain ⟨hin, hslice, hne, hchars⟩ := standsIn_identifiers text i hi
    exact ⟨hin, hname ▸ hslice, hne, hname ▸ hchars⟩

/-- **No two changes have a byte in common.** -/
theorem changes_pairwise (hb : b.StandsIn text) :
    (changes (identifiers text) b newName).Pairwise fun x y => x.range.Disjoint y.range := by
  refine .cons (fun e he => ?_) (List.pairwise_map.mpr ?_)
  · obtain ⟨i, hi, rfl⟩ := List.mem_map.mp he
    obtain ⟨hi, -, hname, hspan⟩ := mem_references_iff.mp hi
    exact ((hb.eq_or_disjoint hi hname).resolve_left hspan).symm
  · refine ((identifiers_pairwise text).imp fun hlt => ?_).filter _
    exact Span.disjoint_of_le (Nat.le_of_lt hlt)

/-- The text that the bound name becomes: an import in braces keeps its name if it is alone in its part. -/
theorem renamedDeclaration_eq (h : b ∈ bindings text) : renamedDeclaration b newName =
    if b.isImport = true ∧ isBracedAlone (b.lead text) = true then b.name ++ " as " ++ newName else newName := by
  obtain ⟨name, span, statement, kind⟩ := b
  cases kind with
  | exported keyword => simp [renamedDeclaration, Binding.isImport]
  | imported source needsAlias =>
    rw [← needsAlias_eq h rfl]
    cases needsAlias <;> simp [renamedDeclaration, Binding.isImport]

/-- **Each identifier of a name that is bound once refers to that binding,** if it is no property. -/
theorem resolve?_of_bound_once {offset : Nat} (honce : (analyze d).bindings.filter (·.name == b.name) = [b])
    (hi : i ∈ identifiers d.text) (hproperty : i.isProperty = false) (hname : i.name = b.name)
    (hlo : i.span.start ≤ offset) (hhi : offset ≤ i.span.stop) : (analyze d).resolve? offset = some (i, b) := by
  have heq : ∀ c ∈ (analyze d).bindings, c.name = b.name → c = b := fun c hc hcname => by
    have hmem : c ∈ (analyze d).bindings.filter (·.name == b.name) := List.mem_filter.mpr ⟨hc, by simp [hcname]⟩
    rwa [honce, List.mem_singleton] at hmem
  have hb : b ∈ (analyze d).bindings := (List.mem_filter.mp (honce ▸ List.mem_singleton_self b)).1
  have hat : identifierAt? (analyze d).identifiers offset = some i := identifierAt?_eq_some_iff.mpr ⟨hi, hlo, hhi⟩
  have hnamed : (analyze d).bindings.find? (·.name == i.name) = some b := by
    cases hfind : (analyze d).bindings.find? (·.name == i.name) with
    | none => exact absurd (List.find?_eq_none.mp hfind b hb) (by simp [hname])
    | some c =>
      have hc : c.name = i.name := by simpa using List.find?_some hfind
      rw [heq c (List.mem_of_find?_eq_some hfind) (hc.trans hname)]
  have hfound : ((analyze d).bindings.find? (·.span == i.span)).or
      ((analyze d).bindings.find? (·.name == i.name)) = some b := by
    cases hfind : (analyze d).bindings.find? (·.span == i.span) with
    | none => rw [Option.none_or, hnamed]
    | some c =>
      have hmem := List.mem_of_find?_eq_some hfind
      have hspan : c.span = i.span := by simpa using List.find?_some hfind
      have hc := (standsIn_bindings (mem_of_mem_analyze hmem)).name_eq hi hspan.symm
      rw [Option.some_or, heq c hmem (hc.symm.trans hname)]
  simp only [Analysis.resolve?, hat, hproperty, hfound, Option.bind_eq_bind, Option.bind_some]
  rfl

end ScriptService

end Mdx

/-
Identifiers of the script view keep to the mapping. The two shadows stand between
line feeds, and in a shadow a kept span has blanks at its sides; so an identifier
character never stands right outside an entry (`fenced_script`), and a run of
them lies in one entry or in none.
-/
import Mdx.Proofs.MappedSpan
import Mdx.Proofs.Script.Identifier
import Mdx.Proofs.View.Script

namespace Mdx

open Script

namespace Component

/-! ## The words around the shadows -/

theorem getLast?_toList_append {a b : String} {ch : Char} (h : b.toList.getLast? = some ch) :
    (a ++ b).toList.getLast? = some ch := by
  rw [String.toList_append, List.getLast?_append, h, Option.some_or]

theorem head?_toList_append {a b : String} {ch : Char} (h : a.toList.head? = some ch) :
    (a ++ b).toList.head? = some ch := by
  rw [String.toList_append, List.head?_append, h, Option.some_or]

theorem getLast?_pragma (checkJs : Bool) (jsxImportSource : String) :
    (pragma checkJs jsxImportSource).toList.getLast? = some '\n' :=
  getLast?_toList_append (by decide)

theorem head?_head (exported : Bool) : (head exported).toList.head? = some '\n' :=
  head?_toList_append (head?_toList_append (by decide))

theorem getLast?_head (exported : Bool) : (head exported).toList.getLast? = some '\n' :=
  getLast?_toList_append (by decide)

theorem head?_tail : tail.toList.head? = some '\n' := by decide

/-! ## Entries -/

theorem generatedSpan_moved (n : Nat) {s : Span} (h : s.start ≤ s.stop) :
    (moved n s).generatedSpan = ⟨n + s.start, n + s.stop⟩ := by
  simp only [moved, Entry.generatedSpan, Span.ofLength, Span.length, Span.mk.injEq, true_and]
  omega

end Component

section Script

open Component

variable {source : List Char} {r : Regions}

/-- Beside a copied span of the script view stands no identifier character. -/
theorem Regions.Sound.fenced_copied (h : r.Sound source) (checkJs : Bool) (jsxImportSource : String) :
    ∀ e ∈ entriesFrom source 0 (pieces checkJs jsxImportSource source r.modules r.code),
      e.generatedSpan.Fenced isIdentifierChar
        (view checkJs jsxImportSource source r.modules r.code).text := by
  have hmodules := strung_merged h.modules_sorted h.modules_inText
  have hcode := strung_merged h.code_sorted h.code_inText
  have hblank : ∀ ch, isBlank ch = true → isIdentifierChar ch = false :=
    fun _ => isIdentifierChar_of_isBlank
  have hnewline : ∀ {found : Option Char}, found = some '\n' →
      ∀ ch, found = some ch → isIdentifierChar ch = false := by
    rintro _ rfl ch hch
    cases hch
    decide
  rw [entries_pieces hmodules hcode, text_view hmodules hcode]
  intro e he
  rcases List.mem_append.mp he with he | he
  · obtain ⟨s, hs, rfl⟩ := List.mem_map.mp he
    rw [generatedSpan_moved _ (RangeSet.inText_merged h.modules_inText s hs).ordered, List.append_assoc,
      List.append_assoc]
    refine fenced_shadow hblank h.modules_sorted h.modules_inText hs (hnewline (getLast?_pragma _ _)) ?_
    exact hnewline (by rw [List.head?_append, head?_head, Option.some_or])
  · obtain ⟨s, hs, rfl⟩ := List.mem_map.mp he
    have hstart : ∀ exported, codeStart checkJs jsxImportSource source =
        byteLength ((pragma checkJs jsxImportSource).toList ++ shadow r.modules source ++
          (head exported).toList) := by
      intro exported
      rw [byteLength_append, byteLength_append, byteLength_head, shadow, byteLength_shadowFrom, codeStart]
    rw [generatedSpan_moved _ (RangeSet.inText_merged h.code_inText s hs).ordered, hstart]
    refine fenced_shadow hblank h.code_sorted h.code_inText hs ?_ (hnewline head?_tail)
    exact hnewline (by rw [List.getLast?_append, getLast?_head, Option.some_or])

/-- Beside an entry of the script view stands no identifier character. -/
theorem Regions.Sound.fenced_script (h : r.Sound source) (checkJs : Bool) (jsxImportSource : String) :
    ∀ e ∈ (view checkJs jsxImportSource source r.modules r.code).mapping.entries,
      e.generatedSpan.Fenced isIdentifierChar
        (view checkJs jsxImportSource source r.modules r.code).text := by
  refine forall_mem_coalesce (fun e f he hf hcont => ?_) fun e he => ?_
  · rw [Entry.generatedSpan_join hcont]
    exact he.join hf (Entry.continuedBy_iff.mp hcont).2
  · exact h.fenced_copied checkJs jsxImportSource e (List.mem_filter.mp he).1

end Script

/-- Where an identifier of a view stands: inside one entry, from which it comes back to the same name in
the source, or outside of every entry, and then it does not come back. -/
inductive IdentifierPlaced (source : List Char) (d : VirtualDocument) (i : Identifier) : Prop
  | mapped {e : Entry} {origin : Span} : e ∈ d.mapping.entries → i.span.Within e.generatedSpan →
    d.mapping.toSourceSpan i.span = some origin → origin.InText source →
    slice source origin = i.name.toList → origin.length = i.span.length → IdentifierPlaced source d i
  | unmapped : (∀ e ∈ d.mapping.entries, e.generatedSpan.Disjoint i.span) →
    d.mapping.toSourceSpan i.span = none → IdentifierPlaced source d i

/-- An identifier between fenced entries is not cut by them. -/
theorem identifierPlaced_of_fenced {source : List Char} {d : VirtualDocument} {i : Identifier}
    (hd : d.mapping.Faithful source d.text)
    (hfenced : ∀ e ∈ d.mapping.entries, e.generatedSpan.Fenced isIdentifierChar d.text)
    (hi : i.StandsIn d.text) : IdentifierPlaced source d i := by
  have hchars : ∀ ch ∈ slice d.text i.span, isIdentifierChar ch = true := by
    rw [hi.slice_eq]
    exact hi.chars
  by_cases hw : ∃ e ∈ d.mapping.entries, i.span.Within e.generatedSpan
  · obtain ⟨e, he, hw⟩ := hw
    obtain ⟨hin, hslice⟩ := (hd.copies e he).part hi.inText hw
    refine .mapped he hw (Mapping.toSourceSpan_of_within hd.wellFormed he hi.nonempty hw) hin
      (hslice.trans hi.slice_eq) ?_
    rw [← hin.byteLength_slice, hslice, hi.inText.byteLength_slice]
  · have hdisjoint : ∀ e ∈ d.mapping.entries, e.generatedSpan.Disjoint i.span := by
      intro e he
      rcases (hfenced e he).within_or_disjoint hi.inText hchars with hin | hout
      · exact absurd ⟨e, he, hin⟩ hw
      · exact hout
    exact .unmapped hdisjoint (Mapping.toSourceSpan_of_disjoint hd.wellFormed hi.nonempty hdisjoint)

/-- **No identifier is cut.** In the script view of a document that parses, each identifier stands at
its span and is not empty; it lies in one entry and comes back to the same name in the document, or it
touches no entry and does not come back. -/
theorem compile_identifiers_placed {options : CompileOptions} {source : List Char} {root : Node}
    (h : (compile options source).tree = .ok root) : ∃ script rest,
      (compile options source).documents = ⟨script, []⟩ :: rest ∧ script.language = .script ∧
        ∀ i ∈ identifiers script.text, i.StandsIn script.text ∧ IdentifierPlaced source script i := by
  have hparse := parse_of_tree h
  have hsound := sound_of_parse hparse
  have hdocuments := congrArg Compilation.documents (compile_of_parse hparse)
  refine ⟨_, _, hdocuments, rfl, fun i hi => ?_⟩
  have hstands := standsIn_identifiers _ i hi
  refine ⟨hstands, identifierPlaced_of_fenced ?_ (hsound.fenced_script _ _) hstands⟩
  exact faithful_viewsOf options hsound _ (by simp [viewsOf, DocumentGroup.all])

/-- Names on both sides of a no-break space. -/
theorem compile_identifiers_placed_blank : ∃ root,
    (compile {} "\x7ba\u00a0b\x7d c".toList).tree = .ok root ∧ ∃ script rest,
      (compile {} "\x7ba\u00a0b\x7d c".toList).documents = ⟨script, []⟩ :: rest ∧
        script.language = .script ∧ ∀ i ∈ identifiers script.text,
          i.StandsIn script.text ∧ IdentifierPlaced "\x7ba\u00a0b\x7d c".toList script i := by
  have hparses : (compile {} "\x7ba\u00a0b\x7d c".toList).tree.toOption.isSome = true := by
    decide +kernel
  obtain ⟨root, htree⟩ := exists_ok hparses
  exact ⟨root, htree, compile_identifiers_placed htree⟩

end Mdx

/-
The words around the code of a script view. The pragma is all comments, and the
head of the component has its names in code (`names_head`), at places that come
from nowhere. The head stands between sealed texts, so an identifier of the view
either comes from the document or is one of the head (`mapped_or_scaffold`).
-/
import Mdx.Proofs.Script.Trivia
import Mdx.Proofs.View.Identifier
import Mdx.Proofs.View.Literal

namespace Mdx

open Cursor Script

namespace Component

/-- The names that the words around the code have in code. -/
def scaffoldNames (exported : Bool) : List String :=
  (if exported then ["export", "default"] else []) ++ ["function", "MDXContent", "props", "return"]

theorem isTrivia_checkLine (checkJs : Bool) : IsTrivia (checkLine checkJs) := by
  cases checkJs with
  | false => exact isTrivia_nil
  | true =>
    have hbody : '\n' ∉ " @ts-check".toList := by decide
    exact isTrivia_lineComment hbody

/-- The text before the module code has no code in it. -/
theorem isTrivia_pragma (checkJs : Bool) {jsxImportSource : String}
    (h : ¬ "*/".toList <:+: jsxImportSource.toList) : IsTrivia (pragma checkJs jsxImportSource).toList := by
  obtain ⟨body, hbody, heq⟩ := pragma_eq checkJs h
  rw [heq]
  exact (isTrivia_checkLine checkJs).append ((isTrivia_comment hbody).append (isTrivia_singleton rfl))

/-- The head of the component behind its first line feed. -/
def headLine (exported : Bool) : List Char := (head exported).toList.tail

theorem head_cons (exported : Bool) : (head exported).toList = '\n' :: headLine exported := by
  obtain ⟨t, ht, -⟩ := head_eq exported
  rw [headLine, ht, List.tail_cons]

theorem sealed_headLine (exported : Bool) : Sealed (headLine exported) := by
  obtain ⟨t, ht, hsealed⟩ := head_eq exported
  rwa [headLine, ht]

/-- The names in the head are no properties. -/
theorem names_head (exported : Bool) :
    (identifiers (headLine exported)).map Identifier.name = scaffoldNames exported ∧
      ∀ j ∈ identifiers (headLine exported), j.isProperty = false ∧ 0 < j.span.start := by
  cases exported <;> decide +kernel

theorem isIdentifierChar_tail : ∀ ch ∈ tail.toList, isIdentifierChar ch = false := by
  have hall : tail.toList.all (!isIdentifierChar ·) = true := by decide +kernel
  simpa using List.all_eq_true.mp hall

/-- The component is the default export of the view: the module code has none of its own. -/
def isExported (source : List Char) (root : Node) : Bool :=
  !((Regions.ofTree root).modules.ranges.any fun s => isDefaultExport (slice source s))

/-- What stands before the head, with the line feed that ends the last line of the module code. -/
def beforeHead (options : CompileOptions) (source : List Char) (root : Node) : List Char :=
  (pragma options.checkJs options.jsxImportSource).toList ++ (shadow (Regions.ofTree root).modules source ++ ['\n'])

/-- Where the head starts, behind the line feed. -/
def headStart (options : CompileOptions) (source : List Char) : Nat :=
  byteLength (pragma options.checkJs options.jsxImportSource).toList + byteLength source + 1

theorem byteLength_beforeHead (options : CompileOptions) (source : List Char) (root : Node) :
    byteLength (beforeHead options source root) = headStart options source := by
  simp only [beforeHead, byteLength_append, shadow, byteLength_shadowFrom]
  rfl

/-- The shadow of the embedded code starts behind the head. -/
theorem codeStart_eq (options : CompileOptions) (source : List Char) (exported : Bool) :
    codeStart options.checkJs options.jsxImportSource source =
      headStart options source + byteLength (headLine exported) := by
  rw [codeStart, ← byteLength_head exported, head_cons, byteLength_cons, headStart,
    show ('\n' : Char).utf8Size = 1 from by decide]
  omega

theorem cutsNoRun_beforeHead (options : CompileOptions) (source : List Char) (root : Node) (back : List Char) :
    CutsNoRun (beforeHead options source root) back :=
  cutsNoRun_of_getLast? (by simp [beforeHead]) (show isIdentifierChar '\n' = false by decide) back

theorem cutsNoRun_headLine (exported : Bool) (back : List Char) : CutsNoRun (headLine exported) back :=
  cutsNoRun_of_getLast? (by cases exported <;> decide +kernel) (show isIdentifierChar '\n' = false by decide) back

end Component

open Component

/-- An identifier character of a shadow is kept. -/
theorem contains_of_shadow {source : List Char} {set : RangeSet} {o : Nat} {ch : Char}
    (h : charAt? (shadow set source) o = some ch) (hch : isIdentifierChar ch = true) : set.contains o = true := by
  have hkept := contains_of_charAt?_shadowFrom h (isBlank_of_isIdentifierChar hch)
  rwa [Nat.zero_add] at hkept

/-- The script view of a document that parses: it is laid out by its regions, its mapping is faithful,
and no run of identifier characters leaves an entry. -/
structure ScriptView (options : CompileOptions) (source : List Char) (root : Node)
    (script : VirtualDocument) : Prop where
  parsed : parse options.parseOptions source = .ok root
  layout : ScriptLayout options source (Regions.ofTree root) script
  faithful : script.mapping.Faithful source script.text
  fenced : ∀ e ∈ script.mapping.entries, e.generatedSpan.Fenced isIdentifierChar script.text

variable {options : CompileOptions} {source : List Char} {root : Node} {script : VirtualDocument} {i : Identifier}

/-- The first view of a document that parses is its script view. -/
theorem scriptView_of_parse (h : parse options.parseOptions source = .ok root) : ∃ script rest,
    (compile options source).documents = ⟨script, []⟩ :: rest ∧ ScriptView options source root script := by
  have hsound := sound_of_parse h
  refine ⟨_, _, congrArg Compilation.documents (compile_of_parse h), h,
    ⟨rfl, ?_, hsound.toGenerated_script _ _⟩, ?_, hsound.fenced_script _ _⟩
  · exact text_view (strung_merged hsound.modules_sorted hsound.modules_inText)
      (strung_merged hsound.code_sorted hsound.code_inText)
  · exact faithful_viewsOf options hsound _ (by simp [viewsOf, DocumentGroup.all])

/-- An identifier comes back to the document exactly if its first byte does. -/
theorem IdentifierPlaced.isSome_toSourceSpan (h : IdentifierPlaced source script i)
    (hfaithful : script.mapping.Faithful source script.text) (hlt : i.span.start < i.span.stop) :
    (script.mapping.toSourceSpan i.span).isSome = (script.mapping.toSource i.span.start).isSome := by
  cases h with
  | @mapped e origin he hw horigin =>
    obtain ⟨hlo, hhi⟩ := hw
    simp only [Entry.generatedSpan, Span.ofLength] at hlo hhi
    have hfirst : script.mapping.toSource i.span.start = some (e.source + (i.span.start - e.generated)) :=
      (Mapping.toSource_eq_some_iff hfaithful.wellFormed).mpr ⟨e, he, _, by omega, rfl, by omega⟩
    rw [horigin, hfirst]
    rfl
  | unmapped hdisjoint hnone =>
    have hfirst := Mapping.toSource_eq_none hfaithful.wellFormed (g := i.span.start) fun e he =>
      Bool.eq_false_iff.mpr fun hin =>
        hdisjoint e he i.span.start ⟨hin, Span.contains_iff.mpr ⟨Nat.le_refl _, hlt⟩⟩
    rw [hnone, hfirst]
    rfl

namespace ScriptView

theorem text_eq (h : ScriptView options source root script) : script.text =
    beforeHead options source root ++ headLine (isExported source root) ++
      (shadow (Regions.ofTree root).code source ++ tail.toList) := by
  rw [h.layout.text, beforeHead, isExported, head_cons]
  simp only [List.append_assoc, List.cons_append, List.nil_append]

theorem identifierPlaced (h : ScriptView options source root script) (hi : i ∈ identifiers script.text) :
    IdentifierPlaced source script i :=
  identifierPlaced_of_fenced h.faithful h.fenced (standsIn_identifiers script.text i hi)

theorem isSome_toSource (h : ScriptView options source root script) {o g : Nat}
    (hplace : script.mapping.toGenerated o = some g) : (script.mapping.toSource g).isSome = true := by
  rw [(Mapping.toGenerated_eq_some_iff_toSource h.faithful.wellFormed).mp hplace]
  rfl

/-- No byte of the head has a place in the document. -/
theorem toSource_head (h : ScriptView options source root script) {g : Nat} (hle : headStart options source ≤ g)
    (hlt : g < headStart options source + byteLength (headLine (isExported source root))) :
    script.mapping.toSource g = none := by
  refine Option.eq_none_iff_forall_ne_some.mpr fun o ho => ?_
  have hbound := Mapping.toSource_lt h.faithful ho
  have hplace := (Mapping.toGenerated_eq_some_iff_toSource h.faithful.wellFormed).mpr ho
  rw [h.layout.toGenerated] at hplace
  split at hplace
  · cases hplace
    rw [headStart] at hle
    omega
  · split at hplace
    · cases hplace
      rw [codeStart_eq options source (isExported source root)] at hlt
      omega
    · cases hplace

theorem isEmbedded_head (h : ScriptView options source root script) (hi : i ∈ identifiers script.text)
    {j : Identifier} (hj : j ∈ identifiers (headLine (isExported source root)))
    (hspan : i.span = j.span.moved (headStart options source)) : IsEmbedded (headStart options source) i j := by
  rw [← byteLength_beforeHead options source root] at hspan ⊢
  exact isEmbedded_of_span (h.text_eq ▸ hi) hj hspan

/-- Behind the head only embedded code has identifiers. -/
theorem isSome_toSource_behind (h : ScriptView options source root script) (hi : i ∈ identifiers script.text)
    (hle : headStart options source + byteLength (headLine (isExported source root)) ≤ i.span.start) :
    (script.mapping.toSource i.span.start).isSome = true := by
  obtain ⟨ch, hat, hch⟩ := (isRun_of_mem hi).charAt?
  have hstart := codeStart_eq options source (isExported source root)
  rw [h.text_eq, charAt?_append_eq, byteLength_append, byteLength_beforeHead, if_neg (Nat.not_lt.mpr hle), ← hstart,
    charAt?_append_eq] at hat
  split at hat
  · have hkept := contains_of_shadow hat hch
    have hmodules : (Regions.ofTree root).modules.contains
        (i.span.start - codeStart options.checkJs options.jsxImportSource source) = false :=
      Bool.eq_false_iff.mpr fun hcontains => by
        rw [(sound_of_parse h.parsed).modules_code _ hcontains] at hkept
        cases hkept
    refine h.isSome_toSource (o := i.span.start -
      codeStart options.checkJs options.jsxImportSource source) ?_
    rw [h.layout.toGenerated, hmodules, if_neg Bool.false_ne_true, if_pos hkept, Nat.add_sub_cancel' (hstart ▸ hle)]
  · exact absurd hch (by simp [isIdentifierChar_tail ch (mem_of_charAt? hat)])

section Comment

variable (hcomment : ¬ "*/".toList <:+: options.jsxImportSource.toList)
include hcomment

theorem sealed_beforeHead (h : ScriptView options source root script) :
    Sealed (beforeHead options source root) :=
  (sealed_pragma options.checkJs hcomment).append (sealed_modules h.parsed)

/-- Where the head stands the identifiers of the view are those of the head. -/
theorem exists_head_iff (h : ScriptView options source root script) {s : Span}
    (hle : headStart options source ≤ s.start)
    (hlt : s.start < headStart options source + byteLength (headLine (isExported source root))) :
    (∃ i ∈ identifiers script.text, i.span = s) ↔
      ∃ j ∈ identifiers (headLine (isExported source root)), s = j.span.moved (headStart options source) := by
  rw [← byteLength_beforeHead options source root] at hle hlt ⊢
  rw [h.text_eq]
  exact exists_embedded_iff (h.sealed_beforeHead hcomment) (sealed_headLine _) (cutsNoRun_beforeHead _ _ _ _)
    (cutsNoRun_headLine _ _) hle hlt

/-- Before the head only module code has identifiers. -/
theorem isSome_toSource_before (h : ScriptView options source root script) (hi : i ∈ identifiers script.text)
    (hlt : i.span.start < headStart options source) : (script.mapping.toSource i.span.start).isSome = true := by
  rw [← byteLength_beforeHead options source root] at hlt
  obtain ⟨ch, hat, hch⟩ := (isRun_of_mem hi).charAt?
  rw [h.text_eq, charAt?_append_eq, if_pos (by rw [byteLength_append]; omega), charAt?_append_eq, if_pos hlt,
    beforeHead, charAt?_append_eq] at hat
  split at hat
  · next hpragma =>
    -- The comments hold no identifier.
    have htext : script.text = (pragma options.checkJs options.jsxImportSource).toList ++ _ :=
      h.text_eq.trans (by simp only [beforeHead, List.append_assoc]; rfl)
    rw [htext, (isTrivia_pragma options.checkJs hcomment).identifiers_append] at hi
    obtain ⟨j, -, rfl⟩ := List.mem_map.mp hi
    exact absurd hpragma (Nat.not_lt.mpr (Nat.le_add_right _ _))
  · next hpragma =>
    rw [charAt?_append_eq] at hat
    split at hat
    · refine h.isSome_toSource (o := i.span.start -
        byteLength (pragma options.checkJs options.jsxImportSource).toList) ?_
      rw [h.layout.toGenerated, if_pos (contains_of_shadow hat hch), Nat.add_sub_cancel' (Nat.le_of_not_lt hpragma)]
    · cases List.mem_singleton.mp (mem_of_charAt? hat)
      exact absurd hch (by decide)

/-- **An identifier of the script view comes from the document or is one of the head.** -/
theorem mapped_or_scaffold (h : ScriptView options source root script) (hi : i ∈ identifiers script.text) :
    (script.mapping.toSource i.span.start).isSome = true ∨
      ∃ j ∈ identifiers (headLine (isExported source root)), IsEmbedded (headStart options source) i j := by
  by_cases hlt : i.span.start < headStart options source
  · exact .inl (h.isSome_toSource_before hcomment hi hlt)
  · by_cases hle : headStart options source + byteLength (headLine (isExported source root)) ≤ i.span.start
    · exact .inl (h.isSome_toSource_behind hi hle)
    · obtain ⟨j, hj, hspan⟩ := (h.exists_head_iff hcomment (Nat.le_of_not_lt hlt) (Nat.lt_of_not_le hle)).mp
        ⟨i, hi, rfl⟩
      exact .inr ⟨j, hj, h.isEmbedded_head hi hj hspan⟩

/-- The identifiers of the head are in the view, and come from nowhere. -/
theorem exists_scaffold (h : ScriptView options source root script) {j : Identifier}
    (hj : j ∈ identifiers (headLine (isExported source root))) : ∃ i ∈ identifiers script.text,
      IsEmbedded (headStart options source) i j ∧ script.mapping.toSource i.span.start = none := by
  have hrun := isRun_of_mem hj
  have hle : headStart options source ≤ (j.span.moved (headStart options source)).start := Nat.le_add_right _ _
  have hlt := Nat.add_lt_add_left (Nat.lt_of_lt_of_le hrun.lt hrun.inText.bounded) (headStart options source)
  obtain ⟨i, hi, hspan⟩ := (h.exists_head_iff hcomment hle hlt).mpr ⟨j, hj, rfl⟩
  refine ⟨i, hi, h.isEmbedded_head hi hj hspan, ?_⟩
  rw [hspan]
  exact h.toSource_head hle hlt

end Comment

end ScriptView

end Mdx

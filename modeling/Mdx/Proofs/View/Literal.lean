/-
The quoted values of attributes in the script view. The tag's reader takes all up
to the next such quote, the tokenizer ends a string at a line feed and passes over
a quote behind a backslash. All that stands before a literal in the view is sealed
if the literals there are strings, so the two agree on the literal exactly if it is
the body of a string (`literals_as_strings`).
-/
import Mdx.Proofs.Regions.Modules
import Mdx.Proofs.Service.Reference
import Mdx.Proofs.View.Script
import Mathlib.Data.List.Induction

namespace Mdx

open Script

/-! ## What stands before the code -/

namespace Component

/-- A comment that does not end in the text given to it does not end in what is put around the text, if
there is no star before the text and no slash behind it. -/
theorem notInfix_around {front body back : List Char} (hfront : '*' ∉ front) (hback : '/' ∉ back)
    (h : ¬ ['*', '/'] <:+: body) : ¬ ['*', '/'] <:+: front ++ body ++ back := by
  induction front with
  | nil =>
    rw [List.nil_append]
    induction back using List.reverseRecOn with
    | nil => rwa [List.append_nil]
    | append_singleton back c ih =>
      rw [List.mem_append, not_or, List.mem_singleton] at hback
      rw [← List.append_assoc, List.infix_concat_iff]
      rintro (⟨before, heq⟩ | hinfix)
      · have hlast := congrArg List.getLast? heq
        simp only [List.getLast?_append, List.getLast?_cons_cons, List.getLast?_singleton, Option.some_or,
          Option.some.injEq] at hlast
        exact hback.2 hlast
      · exact ih hback.1 hinfix
  | cons c front ih =>
    rw [List.mem_cons, not_or] at hfront
    rw [List.cons_append, List.cons_append, List.infix_cons_iff]
    rintro (hstart | hinfix)
    · exact hfront.1 (List.cons_prefix_cons.mp hstart).1
    · exact ih hfront.2 hinfix

/-- The request to check the script view, if it is on. -/
def checkLine (checkJs : Bool) : List Char := (if checkJs then "// @ts-check\n" else "").toList

/-- The text before the module code is two comments, of which the second is closed. -/
theorem pragma_eq (checkJs : Bool) {jsxImportSource : String} (h : ¬ "*/".toList <:+: jsxImportSource.toList) :
    ∃ body, ¬ ['*', '/'] <:+: body ∧ (pragma checkJs jsxImportSource).toList =
      checkLine checkJs ++ ('/' :: '*' :: (body ++ ['*', '/']) ++ ['\n']) :=
  ⟨" @jsxRuntime automatic\n@jsxImportSource ".toList ++ jsxImportSource.toList ++ [' '],
    notInfix_around (by decide) (by decide) h, by simp [pragma, checkLine]⟩

theorem sealed_checkLine (checkJs : Bool) : Sealed (checkLine checkJs) := by
  cases checkJs with
  | false => exact sealed_nil
  | true => exact sealed_of_tokens (by decide +kernel) (by decide +kernel)

theorem sealed_pragma (checkJs : Bool) {jsxImportSource : String} (h : ¬ "*/".toList <:+: jsxImportSource.toList) :
    Sealed (pragma checkJs jsxImportSource).toList := by
  obtain ⟨body, hbody, heq⟩ := pragma_eq checkJs h
  rw [heq]
  exact (sealed_checkLine checkJs).append ((sealed_comment hbody).append (sealed_singleton (by decide)))

/-- The head of the component is a line feed and a sealed text. -/
theorem head_eq (exported : Bool) : ∃ t, (head exported).toList = '\n' :: t ∧ Sealed t := by
  have hdecide : ∀ b : Bool, (head b).toList = '\n' :: (head b).toList.tail ∧
      (∀ t ∈ tokenize (head b).toList.tail, t.kind ≠ .malformed) ∧
      ∀ t, (tokenize (head b).toList.tail).getLast? = some t → t.kind ≠ .lineComment ∧ t.kind ≠ .slash := by
    decide +kernel
  obtain ⟨heq, hwell, hlast⟩ := hdecide exported
  exact ⟨_, heq, sealed_of_tokens hwell hlast⟩

end Component

variable {source : List Char} {root : Node} {script : VirtualDocument} {s : Span} {body : List Char}

/-- What stands before the shadow of the code is sealed, if the import source does not end the comment
that it is put in. -/
theorem sealed_before_code {options : ParseOptions} {jsxImportSource : String}
    (h : parse options source = .ok root) (hcomment : ¬ "*/".toList <:+: jsxImportSource.toList)
    (checkJs exported : Bool) :
    Sealed ((Component.pragma checkJs jsxImportSource).toList ++ shadow (Regions.ofTree root).modules source ++
      (Component.head exported).toList) := by
  obtain ⟨t, hhead, ht⟩ := Component.head_eq exported
  -- The last line of the module code may end in a comment, which the first character of the head ends.
  have hsealed := ((Component.sealed_pragma checkJs hcomment).append (sealed_modules h)).append ht
  rw [hhead, ← List.singleton_append]
  simpa only [List.append_assoc] using hsealed

/-! ## Literals in the view -/

/-- The script view has the literal at `s` with its quotes as one string exactly if it is the body of a
string, and then no identifier has a byte that comes from the literal. -/
structure ReadsLiteral (source : List Char) (script : VirtualDocument) (s : Span) (body : List Char) : Prop where
  string : (∃ t ∈ locate 0 (tokenize script.text), t.kind.isString = true ∧
    script.mapping.toGenerated (s.start - 1) = some t.span.start ∧
      t.text = slice source ⟨s.start - 1, s.stop + 1⟩) ↔ IsStringBody body
  hidden : IsStringBody body → ∀ i ∈ identifiers script.text, ∀ g, i.span.contains g = true →
    ∀ o, script.mapping.toSource g = some o → s.contains o = false

/-- A literal is read in a view that shows the code behind a sealed text. -/
theorem LiteralStands.reads {code : RangeSet} {front before behind back : List Char} {q : Char}
    (h : LiteralStands source code s body front q back) (hsealed : Sealed (before ++ front))
    (htext : script.text = before ++ shadow code source ++ behind)
    (hcode : ∀ o, code.contains o = true → script.mapping.toGenerated o = some (byteLength before + o))
    (hfaithful : script.mapping.Faithful source script.text) : ReadsLiteral source script s body := by
  have hsplit : script.text = before ++ front ++ (q :: (body ++ [q]) ++ (back ++ behind)) := by
    rw [htext, h.shadow_eq]
    simp only [List.append_assoc]
  have hstart : s.start - 1 = byteLength front := by
    rw [h.start, Nat.add_sub_cancel]
  have hplace : ∀ o, s.start - 1 ≤ o → o < s.stop + 1 →
      script.mapping.toGenerated o = some (byteLength before + o) :=
    fun o hle hlt => hcode o (h.contains o hle hlt)
  have hquote : script.mapping.toGenerated (s.start - 1) = some (byteLength (before ++ front)) := by
    rw [hplace _ (Nat.le_refl _) (by have := h.stop; omega), hstart, byteLength_append]
  have hiff := mem_locate_string_iff hsealed h.quote h.notMem (back ++ behind)
  rw [← hsplit] at hiff
  refine ⟨?_, fun hbody i hi g hg o ho => ?_⟩
  · rw [← hiff, h.slice_eq, hquote]
    simp only [Option.some.injEq]
    refine exists_congr fun t => and_congr_right fun _ => and_congr_right fun _ => ?_
    rw [and_comm, eq_comm (a := byteLength (before ++ front))]
  · rw [← Bool.not_eq_true, Span.contains_iff]
    rintro ⟨hle, hlt⟩
    obtain ⟨t, ht, hstring, htoken, hspan⟩ := hiff.mpr hbody
    obtain ⟨-, hstop⟩ := le_of_mem_locate ht
    have hgenerated := hfaithful.toGenerated_toSource g o ho
    rw [hplace o (by omega) (by omega), Option.some.injEq] at hgenerated
    have hlength : byteLength t.text = byteLength body + 2 := by
      simp only [htoken, byteLength_append, byteLength_cons, byteLength_nil, h.quote.utf8Size_eq]
      omega
    refine disjoint_of_string ht hstring i hi g ⟨Span.contains_iff.mpr ?_, hg⟩
    rw [hstop, hspan, hlength, byteLength_append]
    have := h.start
    have := h.stop
    omega

/-- A literal whose predecessors are strings is read in a script view that is laid out by the shadows. -/
theorem IsLiteral.reads {options : CompileOptions} (hs : IsLiteral root s body)
    (h : parse options.parseOptions source = .ok root)
    (hcomment : ¬ "*/".toList <:+: options.jsxImportSource.toList)
    (hlayout : ScriptLayout options source (Regions.ofTree root) script)
    (hfaithful : script.mapping.Faithful source script.text)
    (hstrings : ∀ u text, IsLiteral root u text → u.stop ≤ s.start → IsStringBody text) :
    ReadsLiteral source script s body := by
  obtain ⟨front, q, back, hstands, hfront⟩ := hs.stands h hstrings
  refine hstands.reads ((sealed_before_code h hcomment options.checkJs _).append hfront) hlayout.text
    (fun o ho => ?_) hfaithful
  have hmodules : (Regions.ofTree root).modules.contains o = false := by
    rw [← Bool.not_eq_true]
    intro hcontains
    rw [(sound_of_parse h).modules_code o hcontains] at ho
    cases ho
  rw [hlayout.toGenerated, hmodules, ho, byteLength_append, byteLength_append, Component.byteLength_head, shadow,
    byteLength_shadowFrom]
  rfl

/-- **A literal is one string of the script view exactly if it is the body of a string.** This holds of
each literal whose predecessors in the document are strings. So in a document where all are, no identifier
comes from a literal, and the first that is none, for a line feed or an escaped quote, is no string of the view. -/
theorem literals_as_strings {options : CompileOptions} (h : parse options.parseOptions source = .ok root)
    (hcomment : ¬ "*/".toList <:+: options.jsxImportSource.toList) :
    ∃ script rest, (compile options source).documents = ⟨script, []⟩ :: rest ∧ script.language = .script ∧
      ∀ s body, IsLiteral root s body →
        (∀ u text, IsLiteral root u text → u.stop ≤ s.start → IsStringBody text) →
        ReadsLiteral source script s body := by
  have hsound := sound_of_parse h
  have hdocuments := congrArg Compilation.documents (compile_of_parse h)
  refine ⟨_, _, hdocuments, rfl, fun s body hs => hs.reads h hcomment ⟨rfl, ?_, hsound.toGenerated_script _ _⟩
    (faithful_viewsOf options hsound _ (by simp [viewsOf, DocumentGroup.all]))⟩
  exact Component.text_view (strung_merged hsound.modules_sorted hsound.modules_inText)
    (strung_merged hsound.code_sorted hsound.code_inText)

/-- A name in a string, and in a literal behind it that is none. -/
theorem literals_as_strings_lines :
    let source := "import b from 'x'\n\n<A t=\x22b\x22 u=\x22a\nb\x22 />\n".toList
    ∃ root, (parse (CompileOptions.parseOptions {}) source = .ok root ∧
        ¬ "*/".toList <:+: (CompileOptions.jsxImportSource {}).toList) ∧
      ∃ script rest, (compile {} source).documents = ⟨script, []⟩ :: rest ∧
        (IsLiteral root ⟨25, 26⟩ "b".toList ∧ IsStringBody "b".toList ∧
          ReadsLiteral source script ⟨25, 26⟩ "b".toList) ∧
        IsLiteral root ⟨31, 34⟩ "a\nb".toList ∧ ¬ IsStringBody "a\nb".toList ∧
          ReadsLiteral source script ⟨31, 34⟩ "a\nb".toList := by
  intro source
  let first : Attribute := ⟨.named "t" (some (.literal "b")), ⟨22, 27⟩⟩
  let second : Attribute := ⟨.named "u" (some (.literal "a\nb")), ⟨28, 35⟩⟩
  let element : Element := ⟨some "A", [first, second], true⟩
  let root : Node := .branch .root ⟨0, 39⟩ [.branch .moduleBlock ⟨0, 17⟩
    [.leaf .moduleStatement ⟨0, 17⟩], .leaf (.blockElement element) ⟨19, 38⟩]
  have hparse : parse (CompileOptions.parseOptions {}) source = .ok root :=
    ok_of_toOption (by decide +kernel)
  have hcomment : ¬ "*/".toList <:+: (CompileOptions.jsxImportSource {}).toList := by decide +kernel
  have hmem : Node.leaf (.blockElement element) ⟨19, 38⟩ ∈ root.preorder := by decide +kernel
  have hfirst : IsLiteral root ⟨25, 26⟩ "b".toList :=
    ⟨_, hmem, element, rfl, first, List.mem_cons_self, rfl, by decide +kernel⟩
  have hsecond : IsLiteral root ⟨31, 34⟩ "a\nb".toList :=
    ⟨_, hmem, element, rfl, second, List.mem_cons_of_mem _ List.mem_cons_self, rfl, by decide +kernel⟩
  have hall : ∀ u text, IsLiteral root u text → u.stop ≤ 31 → IsStringBody text := by
    rintro u text ⟨m, hm, e, he, a, ha, hbody, rfl⟩ hle
    have hpreorder : root.preorder = [root, .branch .moduleBlock ⟨0, 17⟩ [.leaf .moduleStatement ⟨0, 17⟩],
        .leaf .moduleStatement ⟨0, 17⟩, .leaf (.blockElement element) ⟨19, 38⟩] := by decide +kernel
    rw [hpreorder] at hm
    simp only [List.mem_cons, List.not_mem_nil, or_false] at hm
    rcases hm with rfl | rfl | rfl | rfl
    · cases he
    · cases he
    · cases he
    · cases he
      rcases List.mem_cons.mp ha with rfl | ha
      · cases hbody
        decide +kernel
      · rw [List.mem_singleton.mp ha] at hle
        exact absurd (show 34 ≤ 31 from hle) (by decide)
  have hnone : ∀ u text, IsLiteral root u text → u.stop ≤ 25 → IsStringBody text :=
    fun u text hu hle => hall u text hu (Nat.le_trans hle (by decide))
  obtain ⟨script, rest, hdocuments, -, hreads⟩ := literals_as_strings hparse hcomment
  exact ⟨root, ⟨hparse, hcomment⟩, script, rest, hdocuments,
    ⟨hfirst, by decide +kernel, hreads _ _ hfirst hnone⟩,
    hsecond, by decide +kernel, hreads _ _ hsecond hall⟩

/-- A name in a literal over two lines is an identifier of the script view, and a renaming changes it. -/
theorem literals_count_as_code :
    let source := "import b from 'x'\n\n<A t=\x22a\nb\x22 />\n".toList
    ∃ root script rest, parse (CompileOptions.parseOptions {}) source = .ok root ∧
      IsLiteral root ⟨25, 28⟩ "a\nb".toList ∧ (compile {} source).documents = ⟨script, []⟩ :: rest ∧
      (∃ i ∈ identifiers script.text, i.name = "b" ∧ script.mapping.toSourceSpan i.span = some ⟨27, 28⟩) ∧
      ∃ edits, ScriptService.rename script 58 "c" = .ok edits ∧
        ∃ e ∈ edits, script.mapping.toSourceSpan e.range = some ⟨27, 28⟩ := by
  intro source
  let element : Element := ⟨some "A", [⟨.named "t" (some (.literal "a\nb")), ⟨22, 29⟩⟩], true⟩
  let root : Node := .branch .root ⟨0, 33⟩ [.branch .moduleBlock ⟨0, 17⟩
    [.leaf .moduleStatement ⟨0, 17⟩], .leaf (.blockElement element) ⟨19, 32⟩]
  let text := ["/* @jsxRuntime automatic\n", "@jsxImportSource react */\n", "import b from 'x'\n\n", "       \n",
    "     \n", "\n/** @param \x7b\x7breadonly ", "[key: string]: unknown\x7d\x7d ", "props */\n",
    "export default function ", "MDXContent(props) \x7b\n", "  return <>\n", "                 \n\n",
    "<A t=\x22a\nb\x22 />\n", "\n  </>\n\x7d\n"].flatMap String.toList
  let script : VirtualDocument := ⟨"jsx", .script, text, ⟨[⟨0, 51, 17⟩, ⟨19, 216, 13⟩]⟩⟩
  let i : Identifier := ⟨"b", ⟨58, 59⟩, false⟩
  let j : Identifier := ⟨"b", ⟨224, 225⟩, false⟩
  let b : Binding := ⟨"b", ⟨58, 59⟩, ⟨51, 68⟩, .imported "x" false⟩
  have hparse : parse (CompileOptions.parseOptions {}) source = .ok root :=
    ok_of_toOption (by decide +kernel)
  have hmem : Node.leaf (.blockElement element) ⟨19, 32⟩ ∈ root.preorder := by decide +kernel
  have hfirst : (compile {} source).documents.head? = some ⟨script, []⟩ := by decide +kernel
  obtain ⟨rest, hdocuments⟩ := List.head?_eq_some_iff.mp hfirst
  have hj : j ∈ identifiers script.text := by decide +kernel
  have horigin : script.mapping.toSourceSpan j.span = some ⟨27, 28⟩ := by decide +kernel
  have hbindings : bindings text = [b, ⟨"MDXContent", ⟨165, 175⟩, ⟨141, 184⟩, .exported "function"⟩] := by
    unfold bindings
    rw [List.mergeSort_of_pairwise (by decide +kernel)]
    decide +kernel
  have hresolve : (ScriptService.analyze script).resolve? 58 = some (i, b) := by
    simp only [ScriptService.analyze, script, hbindings]
    decide +kernel
  have hreference : j ∈ ScriptService.references (identifiers script.text) b :=
    ScriptService.mem_references.mpr ⟨hj, rfl, by decide, by decide +kernel⟩
  have hoffset : 58 ≤ byteLength script.text := by decide +kernel
  have hname : isValidName "c".toList = true := by decide +kernel
  obtain ⟨edits, hedits, hranges⟩ := ScriptService.rename_eq rfl hoffset hname hresolve
  obtain ⟨e, he, hrange⟩ := (hranges j.span).mpr (.inr ⟨j, hreference, rfl⟩)
  exact ⟨root, script, rest, hparse,
    ⟨_, hmem, element, rfl, _, List.mem_singleton_self _, rfl, by decide +kernel⟩,
    hdocuments, ⟨j, hj, rfl, horigin⟩, edits, hedits, e, he, hrange ▸ horigin⟩

end Mdx

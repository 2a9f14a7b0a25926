/-
What settings can do to a script view. The module of the markup runtime is put in
a comment as it is given, while its check looks at the text between the blanks
around it. No end of a comment can come about at those blanks or at the words of
the pragma, so a value that is accepted stays in the comment, and the script
view has no code but that of the document and of the component
(`settings_hold_no_code`).
-/
import Mdx.Proofs.View.Scaffold
import Mdx.Settings.Basic

namespace Mdx

open Script Component

namespace Settings

theorem hasInfix_iff {needle cs : List Char} : hasInfix needle cs = true ↔ needle <:+: cs := by
  induction cs with
  | nil => simp [hasInfix]
  | cons c cs ih => rw [hasInfix, Bool.or_eq_true, List.isPrefixOf_iff_prefix, ih, List.infix_cons_iff]

/-- The name of a module does not end a comment, and neither do the blanks around it. -/
theorem notInfix_of_isModuleName {text : String} (h : isModuleName text = true) :
    ¬ "*/".toList <:+: text.toList := by
  simp only [isModuleName, Bool.and_eq_true, Bool.not_eq_true'] at h
  have hname : ¬ ['*', '/'] <:+: trim text.toList := fun hinfix => by
    rw [hasInfix_iff.mpr hinfix] at h
    exact absurd h.2 (by decide)
  obtain ⟨front, back, hsplit, hfront, hback⟩ := trim_append text.toList
  have hstar : '*' ∉ front := fun hmem => absurd (hfront _ hmem) (by decide)
  have hslash : '/' ∉ back := fun hmem => absurd (hback _ hmem) (by decide)
  rw [hsplit]
  exact notInfix_around hstar hslash hname

theorem isModuleName_of_validate {s t : Settings} (h : s.validate = .ok t) :
    isModuleName t.compiler.jsxImportSource = true := by
  unfold validate at h
  split at h
  · next hname =>
    cases h
    exact hname
  · cases h

end Settings

/-- The script view behind its pragma. Settings have a part in it by the tree only, which is read under the
extensions that are on. -/
def Component.body (source : List Char) (root : Node) : List Char :=
  shadow (Regions.ofTree root).modules source ++ (head (isExported source root)).toList ++
    shadow (Regions.ofTree root).code source ++ tail.toList

/-- In the text that starts with `lead` all code is that of `body`, as many bytes further on. -/
structure CodeBehind (lead body text : List Char) : Prop where
  text_eq : text = lead ++ body
  tokens : codeTokens 0 text = codeTokens (byteLength lead) body
  identifiers : identifiers text = (identifiers body).map (Identifier.moved (byteLength lead))
  starts : ∀ i ∈ Script.identifiers text, byteLength lead ≤ i.span.start

theorem codeBehind_of_isTrivia {lead : List Char} (h : IsTrivia lead) (body : List Char) :
    CodeBehind lead body (lead ++ body) where
  text_eq := rfl
  tokens := by
    have hcode := h 0 body
    rwa [Nat.zero_add] at hcode
  identifiers := h.identifiers_append body
  starts i hi := by
    rw [h.identifiers_append] at hi
    obtain ⟨j, -, rfl⟩ := List.mem_map.mp hi
    exact Nat.le_add_right _ _

theorem ScriptView.codeBehind {options : CompileOptions} {source : List Char} {root : Node}
    {script : VirtualDocument} (h : ScriptView options source root script)
    (hcomment : ¬ "*/".toList <:+: options.jsxImportSource.toList) :
    CodeBehind (pragma options.checkJs options.jsxImportSource).toList (Component.body source root) script.text := by
  have htext : script.text =
      (pragma options.checkJs options.jsxImportSource).toList ++ Component.body source root := by
    rw [h.layout.text, Component.body, isExported]
    simp only [List.append_assoc]
  rw [htext]
  exact codeBehind_of_isTrivia (isTrivia_pragma options.checkJs hcomment) _

/-- **Settings hold no code.** With a module name that is accepted the pragma is whitespace and comments, and
all code of the script view of a document that parses is behind it and does not depend on that name. The
script view of a document that does not parse has no pragma and is the same under all settings. -/
theorem settings_hold_no_code {s t : Settings} {options : CompileOptions} (h : s.validate = .ok t)
    (hname : options.jsxImportSource = t.compiler.jsxImportSource) :
    let lead := (pragma options.checkJs options.jsxImportSource).toList
    (∀ token ∈ tokenize lead,
      token.kind = .whitespace ∨ token.kind = .lineComment ∨ token.kind = .blockComment) ∧ ∀ source, ∃ script rest,
      (compile options source).documents = ⟨script, []⟩ :: rest ∧ script.language = .script ∧
        match parse options.parseOptions source with
        | .ok root => CodeBehind lead (Component.body source root) script.text
        | .error _ => script.text = fallback.toList := by
  have hcomment := Settings.notInfix_of_isModuleName (Settings.isModuleName_of_validate h)
  rw [← hname] at hcomment
  have htrivia := (isTrivia_pragma options.checkJs hcomment).tokens
  refine ⟨fun token htoken => isTrivia_iff.mp (htrivia token htoken), fun source => ?_⟩
  cases hparse : parse options.parseOptions source with
  | ok root =>
    obtain ⟨script, rest, hdocuments, hview⟩ := scriptView_of_parse hparse
    exact ⟨script, rest, hdocuments, hview.layout.language, hview.codeBehind hcomment⟩
  | error e =>
    exact ⟨_, _, congrArg Compilation.documents (compile_of_error hparse), rfl, rfl⟩

/-- A name with blanks around it, of which the first half of the end of a comment is all that is left. -/
theorem settings_hold_no_code_star :
    let s : Settings := { compiler := { jsxImportSource := "\u00a0*\n" } }
    let options : CompileOptions := { checkJs := true, jsxImportSource := "\u00a0*\n" }
    let lead := (pragma options.checkJs options.jsxImportSource).toList
    let source := "export \x7ba\x7d\n\n\x7bb\x7d".toList
    (s.validate = .ok s ∧ options.jsxImportSource = s.compiler.jsxImportSource) ∧
      (∀ token ∈ tokenize lead,
        token.kind = .whitespace ∨ token.kind = .lineComment ∨ token.kind = .blockComment) ∧
      ∃ root script rest, parse options.parseOptions source = .ok root ∧
        (compile options source).documents = ⟨script, []⟩ :: rest ∧ script.language = .script ∧
          CodeBehind lead (Component.body source root) script.text := by
  intro s options lead source
  have hvalid : s.validate = .ok s := if_pos (by decide +kernel)
  have hparses : (parse options.parseOptions source).toOption.isSome = true := by decide +kernel
  obtain ⟨root, hparse⟩ := exists_ok hparses
  obtain ⟨htokens, hviews⟩ := settings_hold_no_code hvalid (show options.jsxImportSource = _ from rfl)
  obtain ⟨script, rest, hdocuments, hlanguage, hcode⟩ := hviews source
  rw [hparse] at hcode
  exact ⟨⟨hvalid, rfl⟩, htokens, root, script, rest, hparse, hdocuments, hlanguage, hcode⟩

end Mdx

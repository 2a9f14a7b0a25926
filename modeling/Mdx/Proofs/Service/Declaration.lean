/-
Where the names of a script view are declared. Bindings are told by the shape of
the text alone, identifiers by the tokens; the two agree on a bound name exactly
if it is a whole run of identifier characters and neither in a comment nor in a
string (`bindings_as_identifiers`).

The outline and the hover show the statement of a binding, and the statement of
an export ends with the line it starts on (`declarations_hold_names`). So an
export whose name is on a later line is shown without its name.
-/
import Mdx.Proofs.Script.Binding
import Mdx.Proofs.Script.Run

namespace Mdx

open Cursor Script

/-- A span within another one has part of its text. -/
theorem Span.InText.infix {cs : List Char} {s t : Span} (hs : s.InText cs) (ht : t.InText cs)
    (h : s.Within t) : slice cs s <:+: slice cs t := by
  obtain ⟨a, b, u, ha, hu, rfl⟩ := ht.path
  obtain ⟨x, y, v, hx, hv, rfl⟩ := hs.path
  obtain ⟨front, hfront⟩ := ha.reaches_of_le hx h.start_le
  obtain ⟨back, rfl, -⟩ := (hfront.trans hv).split hu h.le_stop
  rw [hx.slice hv, ha.slice hu]
  exact ⟨front, back, rfl⟩

variable {text : List Char}

namespace Script

/-- A bound name is a run exactly if it is no part of a longer one. -/
theorem Binding.StandsIn.isRun_iff {b : Binding} (h : b.StandsIn text) :
    IsRun text b.span ↔ b.span.Fenced isIdentifierChar text := by
  obtain ⟨hstart, hchars⟩ := isValidName_iff.mp h.valid
  refine ⟨IsRun.fenced, fun hfenced => ⟨hfenced, fun ch hch => ?_, ?_⟩⟩
  · exact isIdentifierChar_of_isNameChar (hchars ch (h.slice_eq ▸ hch))
  · rw [h.slice_eq]
    cases hname : b.name.toList.head? with
    | none => simp [hname] at hstart
    | some ch =>
      rw [hname] at hstart
      exact isIdentifierStart_of_isNameStart hstart

/-- An identifier character stands where a bound name starts. -/
theorem Binding.StandsIn.charAt? {b : Binding} (h : b.StandsIn text) :
    ∃ ch, charAt? text b.span.start = some ch ∧ isIdentifierChar ch = true := by
  obtain ⟨hstart, hchars⟩ := isValidName_iff.mp h.valid
  cases hname : b.name.toList.head? with
  | none => simp [hname] at hstart
  | some ch =>
    exact ⟨ch, charAt?_of_slice h.inText (h.slice_eq ▸ hname),
      isIdentifierChar_of_isNameChar (hchars ch (List.mem_of_head? hname))⟩

/-- An identifier where a name is bound has that name. -/
theorem Binding.StandsIn.name_eq {b : Binding} {i : Identifier} (h : b.StandsIn text) (hi : i ∈ identifiers text)
    (hspan : i.span = b.span) : i.name = b.name :=
  String.toList_inj.mp <| by rw [← (standsIn_identifiers text i hi).slice_eq, hspan, h.slice_eq]

end Script

/-- **A bound name is an identifier exactly if it stands in code and is no part of a longer name.**
Each name that a text binds stands where its span says; its span is that of an identifier, and then of one
with the same name, if and only if no identifier character is beside it and it is neither in a comment
nor in a string. -/
theorem bindings_as_identifiers (text : List Char) : ∀ b ∈ bindings text, b.span.InText text ∧
    slice text b.span = b.name.toList ∧ ((∃ i ∈ identifiers text, i.span = b.span ∧ i.name = b.name) ↔
      b.span.Fenced isIdentifierChar text ∧ ¬ IsHidden text b.span.start) := by
  intro b hb
  have hstands := standsIn_bindings hb
  obtain ⟨ch, hat, hch⟩ := hstands.charAt?
  refine ⟨hstands.inText, hstands.slice_eq, ?_⟩
  rw [← hstands.isRun_iff, ← inWord_iff hat hch, ← exists_identifier_iff]
  exact exists_congr fun i => and_congr_right fun hi => and_iff_left_of_imp (hstands.name_eq hi)

/-- A name behind the one that is imported, in a comment. -/
theorem bindings_as_identifiers_comment :
    let text := "import a /* b */ from 'x'".toList
    let b : Binding := ⟨"b", ⟨12, 13⟩, ⟨0, 25⟩, .imported "x" false⟩
    b ∈ bindings text ∧ IsHidden text 12 ∧ slice text ⟨12, 13⟩ = "b".toList ∧
      ¬ ∃ i ∈ identifiers text, i.span = ⟨12, 13⟩ ∧ i.name = "b" := by
  intro text b
  have hb : b ∈ bindings text := by decide +kernel
  have hhidden : IsHidden text 12 := by decide +kernel
  obtain ⟨-, hslice, hiff⟩ := bindings_as_identifiers text b hb
  exact ⟨hb, hhidden, hslice, fun h => (hiff.mp h).2 hhidden⟩

/-- Names are bound that no identifier has: one in a comment, and one that is the end of a longer run. -/
theorem bindings_in_comments :
    (∃ b ∈ bindings "import a /* b */ from 'x'".toList,
      ¬ ∃ i ∈ identifiers "import a /* b */ from 'x'".toList, i.span = b.span) ∧
    (∃ b ∈ bindings "/*\nimport a from 'x'\n*/\n".toList,
      ¬ ∃ i ∈ identifiers "/*\nimport a from 'x'\n*/\n".toList, i.span = b.span) ∧
    ∃ b ∈ bindings "import 1a from 'x'".toList,
      ¬ ∃ i ∈ identifiers "import 1a from 'x'".toList, i.span = b.span := by
  decide +kernel

/-! ## Statements -/

namespace ScriptService

/-- The statement of a binding goes on to its name: an import, or an export on the line it starts on. -/
def HoldsName (text : List Char) (b : Binding) : Prop :=
  b.isImport = true ∨ '\n' ∉ slice text ⟨b.statement.start, b.span.start⟩

instance (text : List Char) (b : Binding) : Decidable (HoldsName text b) :=
  inferInstanceAs (Decidable (_ ∨ _))

variable {d : VirtualDocument} {b : Binding}

theorem mem_of_mem_analyze (h : b ∈ (analyze d).bindings) : b ∈ bindings d.text := (List.mem_filter.mp h).1

theorem within_statement_iff (h : b ∈ bindings text) : b.span.Within b.statement ↔ HoldsName text b := by
  rw [HoldsName, ← statement_holds_iff h]
  exact ⟨Span.Within.le_stop, fun hstop => ⟨Nat.le_of_lt (standsIn_bindings h).behind, hstop⟩⟩

/-- The binding that is found at an offset is one of the view, and has the name of the identifier there. -/
theorem mem_of_resolve? {offset : Nat} {i : Identifier} (h : (analyze d).resolve? offset = some (i, b)) :
    (i ∈ identifiers d.text ∧ i.span.start ≤ offset ∧ offset ≤ i.span.stop) ∧ i.isProperty = false ∧
      b ∈ (analyze d).bindings ∧ i.name = b.name := by
  simp only [Analysis.resolve?, Option.bind_eq_bind, Option.bind_eq_some_iff] at h
  obtain ⟨j, hj, h⟩ := h
  split at h
  · cases h
  · next hproperty =>
    simp only [Option.bind_eq_some_iff, Option.pure_def, Option.some.injEq, Prod.mk.injEq] at h
    obtain ⟨b', hb, rfl, rfl⟩ := h
    have hat := identifierAt?_eq_some_iff.mp hj
    refine ⟨hat, Bool.eq_false_iff.mpr hproperty, ?_⟩
    rcases Option.or_eq_some_iff.mp hb with hb | ⟨-, hb⟩
    · have hspan : b'.span = j.span := by simpa using List.find?_some hb
      have hfound := List.mem_of_find?_eq_some hb
      exact ⟨hfound, (standsIn_bindings (mem_of_mem_analyze hfound)).name_eq hat.1 hspan.symm⟩
    · have hname : b'.name = j.name := by simpa using List.find?_some hb
      exact ⟨List.mem_of_find?_eq_some hb, hname.symm⟩

/-- The hover at a place of a script view shows the statement that binds the name there. -/
theorem hover_eq {offset : Nat} (hlanguage : d.language = .script) (hoffset : offset ≤ byteLength d.text) :
    hover d offset = .ok (((analyze d).resolve? offset).map fun (i, b) =>
      ⟨some i.span, "\x60\x60\x60javascript\n" ++ String.ofList (slice d.text b.statement) ++
        "\n\x60\x60\x60\n" ++ b.detail⟩) := by
  simp only [hover, analyzeAt, expectLanguage, checkOffset, hlanguage, hoffset, if_true]
  rfl

/-- What a hover shows of a binding has its name in it, if the statement has. -/
theorem infix_of_hover {offset : Nat} {h : Hover} (hlanguage : d.language = .script)
    (hoffset : offset ≤ byteLength d.text) (hanswer : hover d offset = .ok (some h)) :
    ∃ b ∈ bindings d.text, ∃ s, h.range = some s ∧ slice d.text s = b.name.toList ∧
      (HoldsName d.text b → b.name.toList <:+: h.contents.toList) := by
  rw [hover_eq hlanguage hoffset] at hanswer
  obtain ⟨⟨i, b⟩, hresolve, rfl⟩ := Option.map_eq_some_iff.mp (Except.ok.inj hanswer)
  obtain ⟨⟨hi, -⟩, -, hb, hname⟩ := mem_of_resolve? hresolve
  have hb := mem_of_mem_analyze hb
  refine ⟨b, hb, i.span, rfl, ?_, fun hholds => ?_⟩
  · rw [(standsIn_identifiers d.text i hi).slice_eq, hname]
  have hstands := standsIn_bindings hb
  have hinfix := hstands.inText.infix hstands.statement ((within_statement_iff hb).mpr hholds)
  rw [hstands.slice_eq] at hinfix
  refine hinfix.trans ?_
  simp only [String.toList_append, String.toList_ofList, List.append_assoc]
  exact ⟨_, _, List.append_assoc _ _ _⟩

/-- The outline of a script view has the bindings in their statements. -/
theorem symbols_eq (hlanguage : d.language = .script) : symbols d = .ok ((analyze d).bindings.map fun b =>
    .mk ⟨b.name, some b.detail, symbolKind b, b.statement, b.span⟩ []) := by
  simp only [symbols, expectLanguage, hlanguage, if_true]
  rfl

end ScriptService

open ScriptService

/-- **The outline and the hover show a name exactly if the statement of its binding goes on to it.** The
bindings of a text are in the order of their places, and each name stands behind the start of its
statement, which ends in the text. The statement holds the name if and only if it is an import, or no line
feed stands before the name in it. So an entry of the outline has its selection in its range under this
condition, and what a hover shows has the name in it. -/
theorem declarations_hold_names (id : String) (text : List Char) (mapping : Mapping) :
    let d : VirtualDocument := ⟨id, .script, text, mapping⟩
    (bindings text).Pairwise (fun a b => a.span.start ≤ b.span.start) ∧
    (∀ b ∈ bindings text, slice text b.span = b.name.toList ∧ b.statement.start < b.span.start ∧
      b.statement.stop ≤ byteLength text ∧ (b.span.stop ≤ b.statement.stop ↔ HoldsName text b)) ∧
    (∃ entries, symbols d = .ok entries ∧ ∀ s ∈ entries, ∃ b ∈ bindings text, s.entry.name = b.name ∧
      s.entry.selection = b.span ∧ s.entry.range = b.statement ∧
        (s.entry.selection.Within s.entry.range ↔ HoldsName text b)) ∧
    ∀ offset ≤ byteLength text, ∃ answer, hover d offset = .ok answer ∧ ∀ h, answer = some h →
      ∃ b ∈ bindings text, ∃ s, h.range = some s ∧ slice text s = b.name.toList ∧
        (HoldsName text b → b.name.toList <:+: h.contents.toList) := by
  intro d
  refine ⟨bindings_pairwise text, fun b hb => ?_, ⟨_, symbols_eq rfl, fun s hs => ?_⟩, fun offset hoffset => ?_⟩
  · have hstands := standsIn_bindings hb
    exact ⟨hstands.slice_eq, hstands.behind, hstands.statement.bounded, statement_holds_iff hb⟩
  · obtain ⟨b, hb, rfl⟩ := List.mem_map.mp hs
    have hb := mem_of_mem_analyze hb
    exact ⟨b, hb, rfl, rfl, rfl, within_statement_iff hb⟩
  · exact ⟨_, hover_eq rfl hoffset, fun h hh => infix_of_hover rfl hoffset (hh ▸ hover_eq rfl hoffset)⟩

/-- Two exports, of which the second has its name on the next line. -/
theorem declarations_hold_names_exports :
    let text := "export let a\nexport const\nfoo = 1\n".toList
    let d : VirtualDocument := ⟨"jsx", .script, text, ⟨[⟨0, 0, 34⟩]⟩⟩
    let b : Binding := ⟨"a", ⟨11, 12⟩, ⟨0, 12⟩, .exported "let"⟩
    let c : Binding := ⟨"foo", ⟨26, 29⟩, ⟨13, 25⟩, .exported "const"⟩
    (b ∈ bindings text ∧ HoldsName text b ∧ b.span.stop ≤ b.statement.stop) ∧
      (c ∈ bindings text ∧ ¬ HoldsName text c ∧ ¬ c.span.stop ≤ c.statement.stop) ∧
      11 ≤ byteLength text ∧ ∃ answer, hover d 11 = .ok answer ∧ ∀ h, answer = some h →
        ∃ b ∈ bindings text, ∃ s, h.range = some s ∧ slice text s = b.name.toList ∧
          (HoldsName text b → b.name.toList <:+: h.contents.toList) := by
  intro text d b c
  have hb : b ∈ bindings text := mem_bindings.mpr (.inr (by decide +kernel))
  have hc : c ∈ bindings text := mem_bindings.mpr (.inr (by decide +kernel))
  have hholds : HoldsName text b := by decide +kernel
  have hfeed : ¬ HoldsName text c := by decide +kernel
  have hoffset : 11 ≤ byteLength text := by decide +kernel
  obtain ⟨-, hbindings, -, hhover⟩ := declarations_hold_names "jsx" text ⟨[⟨0, 0, 34⟩]⟩
  exact ⟨⟨hb, hholds, (hbindings b hb).2.2.2.mpr hholds⟩, ⟨hc, hfeed, fun h => hfeed ((hbindings c hc).2.2.2.mp h)⟩,
    hoffset, hhover 11 hoffset⟩

/-- An export whose name is on the next line: its statement stops before the name, so the outline selects
text outside the entry's range, and the hover shows the line without the name. -/
theorem statements_cut_before_names :
    let text := "export const\nfoo = 1\n".toList
    let d : VirtualDocument := ⟨"jsx", .script, text, ⟨[⟨0, 0, 21⟩]⟩⟩
    let b : Binding := ⟨"foo", ⟨13, 16⟩, ⟨0, 12⟩, .exported "const"⟩
    bindings text = [b] ∧ ¬ b.span.stop ≤ b.statement.stop ∧
      (symbols d).toOption.map (·.map fun s => (s.entry.range, s.entry.selection)) = some [(⟨0, 12⟩, ⟨13, 16⟩)] ∧
      ∃ h, (hover d 13).toOption = some (some h) ∧ ¬ "foo".toList <:+: h.contents.toList := by
  intro text d b
  have hbindings : bindings text = [b] := by decide +kernel
  let shown : Hover := ⟨some ⟨13, 16⟩, "\x60\x60\x60javascript\nexport const\n\x60\x60\x60\nexport const"⟩
  have hhover : (hover d 13).toOption = some (some shown) := by decide +kernel
  exact ⟨hbindings, by decide, by decide +kernel, shown, hhover, by decide +kernel⟩

end Mdx

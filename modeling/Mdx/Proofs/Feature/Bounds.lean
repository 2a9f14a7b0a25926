/-
Whatever the services answer, the features stay in the document. An answer is a
place in a view, and a place comes back through the view's mapping or not at all;
what comes back of a faithful mapping lies in the document, and no span has a
line that the document has not.

A document that does not parse has views without mapping, so no answer comes back
and its parse error is all there is (`silent_of_error`). Its span lies in the
document too, so the bounds hold of every document, after any edits.
-/
import Mdx.Feature.Basic
import Mdx.Proofs.Blame.Document
import Mdx.Proofs.MappedSpan
import Mdx.Proofs.Text.Position
import Mdx.Proofs.View.Faithful

namespace Mdx

/-! ## Edited documents -/

/-- A change to a document that is open. -/
inductive Edit where
  | update (source : List Char)
  | reconfigure (options : CompileOptions)

/-- The document after a change. -/
def VirtualFile.edit (f : VirtualFile) : Edit → VirtualFile
  | .update source => f.update source
  | .reconfigure options => f.reconfigure options

/-- The document after some changes, one after the other. -/
def VirtualFile.edits (f : VirtualFile) (changes : List Edit) : VirtualFile := changes.foldl edit f

/-- What was derived from the text is what compiling the text gives. -/
def VirtualFile.UpToDate (f : VirtualFile) : Prop := f.compiled = compile f.options f.source

theorem upToDate_create (id : String) (source : List Char) (options : CompileOptions) :
    (VirtualFile.create id source options).UpToDate := rfl

theorem upToDate_edit (f : VirtualFile) (change : Edit) : (f.edit change).UpToDate := by
  cases change <;> rfl

theorem VirtualFile.UpToDate.edits {f : VirtualFile} (h : f.UpToDate) (changes : List Edit) :
    (f.edits changes).UpToDate := by
  induction changes generalizing f with
  | nil => exact h
  | cons change changes ih => exact ih (upToDate_edit f change)

/-! ## Answers in bounds -/

/-- The diagnostic, and the places it points to, lie in the text. -/
structure Diagnostic.InBounds (source : List Char) (x : Diagnostic) : Prop where
  range : x.range.InBounds source
  related : ∀ info ∈ x.related, info.range.InBounds source

/-- The entry of an outline, and all below it, lie in the text. -/
inductive Symbol.InBounds (source : List Char) : Symbol → Prop
  | mk {e : SymbolEntry} {children : List Symbol} : e.range.InBounds source →
    e.selection.InBounds source → (∀ c ∈ children, InBounds source c) → InBounds source (.mk e children)

namespace Feature

/-- The lines of a fold are lines of the text, in order. -/
structure LineFold.InLines (source : List Char) (l : LineFold) : Prop where
  ordered : l.startLine < l.endLine
  bounded : l.endLine < lineCount source

/-- What the features give lies in the document. -/
structure InDocument (f : VirtualFile) (r : Registry) (offset : Nat) : Prop where
  diagnostics : ∀ x ∈ diagnostics f r, x.InBounds f.source
  hover : ∀ h, hover f r offset = some h → ∀ s, h.range = some s → s.InBounds f.source
  completions : ∀ item ∈ completions f r offset, ∀ s, item.editRange = some s → s.InBounds f.source
  definition : ∀ s ∈ definition f r offset, s.InBounds f.source
  rename : ∀ newName edits, rename f r offset newName = .ok edits → ∀ e ∈ edits, e.range.InBounds f.source
  symbols : ∀ s ∈ symbols f r, s.InBounds f.source
  folds : ∀ l ∈ folds f r, l.InLines f.source

/-- The parse error is told and nothing else. -/
structure Silent (f : VirtualFile) (r : Registry) (offset : Nat) (e : ParseError) : Prop where
  diagnostics : diagnostics f r = [⟨e.span, .error, none, e.message, "mdx", []⟩]
  hover : hover f r offset = none
  completions : completions f r offset = []
  definition : definition f r offset = []
  rename : ∀ newName, rename f r offset newName = .ok []
  symbols : symbols f r = []
  folds : folds f r = []

section Lines

variable {source : List Char}

theorem inLines_lineFold? {span : Span} {kind : Option FoldKind} {l : LineFold}
    (h : lineFold? source span kind = some l) : l.InLines source := by
  simp only [lineFold?] at h
  split at h
  · next hlines =>
    cases h
    exact ⟨by simpa using (Bool.and_eq_true_iff.mp hlines).2, line_bytePosition_lt source _⟩
  · cases h

theorem mem_of_mem_dedupFolds {folds : List LineFold} {l : LineFold} (h : l ∈ dedupFolds folds) :
    l ∈ folds := by
  fun_induction dedupFolds folds with
  | case1 a b folds _ ih =>
    rcases List.mem_cons.mp (ih h) with rfl | h
    · exact List.mem_cons_self
    · exact List.mem_cons_of_mem _ (List.mem_cons_of_mem _ h)
  | case2 a b folds _ ih =>
    rcases List.mem_cons.mp h with rfl | h
    · exact List.mem_cons_self
    · exact List.mem_cons_of_mem _ (ih h)
  | case3 => exact h

theorem inLines_folds (f : VirtualFile) (r : Registry) : ∀ l ∈ folds f r, l.InLines f.source := by
  intro l hl
  have hmem := List.mem_mergeSort.mp (mem_of_mem_dedupFolds hl)
  rcases List.mem_append.mp hmem with hmem | hmem
  · unfold treeFolds at hmem
    split at hmem
    · cases hmem
    · obtain ⟨n, -, hn⟩ := List.mem_filterMap.mp hmem
      simp only [Option.bind_eq_bind, Option.bind_eq_some_iff] at hn
      obtain ⟨kind, -, span, -, hfold⟩ := hn
      exact inLines_lineFold? hfold
  · obtain ⟨⟨s, d⟩, -, hmem⟩ := List.mem_flatMap.mp hmem
    dsimp only at hmem
    split at hmem
    · obtain ⟨fold, -, hfold⟩ := List.mem_filterMap.mp hmem
      simp only [Option.bind_eq_bind, Option.bind_eq_some_iff] at hfold
      obtain ⟨span, -, hfold⟩ := hfold
      exact inLines_lineFold? hfold
    · cases hmem

end Lines

/-! ## Answers that come back -/

section Carried

variable {source : List Char} {d : VirtualDocument}

theorem inBounds_carryOptional (h : d.mapping.Faithful source d.text) {given : Option Span}
    {range : Option Span} (hrange : carryOptional d given = some range) {s : Span} (hs : range = some s) :
    s.InBounds source := by
  subst hs
  cases given with
  | none => cases hrange
  | some g =>
    obtain ⟨r, hr, heq⟩ := Option.map_eq_some_iff.mp hrange
    cases heq
    exact Mapping.inBounds_toSourceSpan h hr

theorem inBounds_carryDiagnostic (h : d.mapping.Faithful source d.text) {x y : Diagnostic}
    (hy : carryDiagnostic d x = some y) : y.InBounds source := by
  simp only [carryDiagnostic, Option.bind_eq_bind, Option.bind_eq_some_iff, Option.pure_def,
    Option.some.injEq] at hy
  obtain ⟨range, hrange, rfl⟩ := hy
  refine ⟨Mapping.inBounds_toSourceSpan h hrange, fun info hinfo => ?_⟩
  obtain ⟨given, -, hgiven⟩ := List.mem_filterMap.mp hinfo
  obtain ⟨s, hs, rfl⟩ := Option.map_eq_some_iff.mp hgiven
  exact Mapping.inBounds_toSourceSpan h hs

/-- A selection that is given up for the range lies where the range does. -/
theorem inBounds_selection (h : d.mapping.Faithful source d.text) {given range : Span} {p : Span → Bool}
    (hrange : range.InBounds source) :
    (((d.mapping.toSourceEnclosing given).filter p).getD range).InBounds source := by
  cases hs : (d.mapping.toSourceEnclosing given).filter p with
  | none => exact hrange
  | some s => exact Mapping.inBounds_toSourceEnclosing h (Option.filter_eq_some_iff.mp hs).1

mutual

theorem inBounds_carrySymbol (h : d.mapping.Faithful source d.text) :
    ∀ (s : Symbol) {t : Symbol}, carrySymbol d s = some t → t.InBounds source
  | .mk e children, t, ht => by
    rw [carrySymbol] at ht
    split at ht
    · cases ht
    · next range hrange =>
      cases ht
      have hin := Mapping.inBounds_toSourceEnclosing h hrange
      exact .mk hin (inBounds_selection h hin) (inBounds_carrySymbols h children)

theorem inBounds_carrySymbols (h : d.mapping.Faithful source d.text) :
    ∀ (ss : List Symbol), ∀ t ∈ carrySymbols d ss, t.InBounds source
  | [] => by simp [carrySymbols]
  | s :: ss => by
    intro t ht
    rw [carrySymbols] at ht
    split at ht
    · next u hu =>
      rcases List.mem_cons.mp ht with rfl | ht
      · exact inBounds_carrySymbol h s hu
      · exact inBounds_carrySymbols h ss t ht
    · exact inBounds_carrySymbols h ss t ht

end

end Carried

/-! ## Features over views with faithful mappings -/

section Features

variable {f : VirtualFile} {r : Registry} {offset : Nat}

theorem mem_of_mem_served {s : Service} {d : VirtualDocument} (h : (s, d) ∈ served f r) :
    d ∈ f.allDocuments := by
  obtain ⟨d', hd', h⟩ := List.mem_filterMap.mp h
  obtain ⟨_, -, heq⟩ := Option.map_eq_some_iff.mp h
  cases heq
  exact hd'

theorem mem_of_mem_servedAt {s : Service} {d : VirtualDocument} {g : Nat}
    (h : (s, d, g) ∈ servedAt f r offset) : d ∈ f.allDocuments := by
  obtain ⟨d', hd', h⟩ := List.mem_filterMap.mp h
  simp only [Option.bind_eq_bind, Option.bind_eq_some_iff, Option.pure_def, Option.some.injEq] at h
  obtain ⟨_, -, _, -, heq⟩ := h
  cases heq
  exact hd'

/-- What holds of each view's answer holds of the first answer. -/
theorem of_findSome? {α : Type} {P : α → Prop} {ask : Service × VirtualDocument × Nat → Option α}
    (hask : ∀ s, ∀ d ∈ f.allDocuments, ∀ g a, ask (s, d, g) = some a → P a) {a : α}
    (h : (servedAt f r offset).findSome? ask = some a) : P a := by
  obtain ⟨⟨s, d, g⟩, hmem, ha⟩ := List.exists_of_findSome?_eq_some h
  exact hask s d (mem_of_mem_servedAt hmem) g a ha

/-- The same for an answer of several things, of which there may be none. -/
theorem forall_mem_getD_findSome? {α : Type} {P : α → Prop}
    {ask : Service × VirtualDocument × Nat → Option (List α)}
    (hask : ∀ s, ∀ d ∈ f.allDocuments, ∀ g as, ask (s, d, g) = some as → ∀ a ∈ as, P a) :
    ∀ a ∈ ((servedAt f r offset).findSome? ask).getD [], P a := by
  cases hfound : (servedAt f r offset).findSome? ask with
  | none => simp
  | some as => exact of_findSome? (P := fun as => ∀ a ∈ as, P a) hask hfound

variable (hf : ∀ d ∈ f.allDocuments, d.mapping.Faithful f.source d.text)
include hf

theorem inBounds_hover (h : Hover) (hh : hover f r offset = some h) :
    ∀ s, h.range = some s → s.InBounds f.source := by
  refine of_findSome? (P := fun h : Hover => ∀ s, h.range = some s → s.InBounds f.source) ?_ hh
  intro service d hd g h hask s hs
  dsimp only at hask
  split at hask
  · obtain ⟨range, hrange, rfl⟩ := Option.map_eq_some_iff.mp hask
    exact inBounds_carryOptional (hf d hd) hrange hs
  · cases hask

theorem inBounds_completions : ∀ item ∈ completions f r offset, ∀ s, item.editRange = some s →
    s.InBounds f.source := by
  refine forall_mem_getD_findSome? fun service d hd g items hask item hitem s hs => ?_
  dsimp only at hask
  split at hask
  · split at hask
    · cases hask
    · cases hask
      obtain ⟨given, -, hgiven⟩ := List.mem_filterMap.mp hitem
      obtain ⟨range, hrange, rfl⟩ := Option.map_eq_some_iff.mp hgiven
      exact inBounds_carryOptional (hf d hd) hrange hs
  · cases hask

theorem inBounds_definition : ∀ s ∈ definition f r offset, s.InBounds f.source := by
  refine forall_mem_getD_findSome? fun service d hd g targets hask s hs => ?_
  dsimp only at hask
  split at hask
  · split at hask
    · cases hask
    · cases hask
      obtain ⟨given, -, hgiven⟩ := List.mem_filterMap.mp hs
      exact Mapping.inBounds_toSourceSpan (hf d hd) hgiven
  · cases hask

theorem inBounds_renameIn {newName : String} {asked : List (Service × VirtualDocument × Nat)}
    (hasked : ∀ p ∈ asked, p.2.1 ∈ f.allDocuments) {edits : List TextEdit}
    (h : renameIn newName asked = .ok edits) : ∀ e ∈ edits, e.range.InBounds f.source := by
  induction asked with
  | nil =>
    cases h
    simp
  | cons p asked ih =>
    obtain ⟨s, d, g⟩ := p
    obtain ⟨hd, hasked⟩ := List.forall_mem_cons.mp hasked
    rw [renameIn] at h
    cases hanswer : s.rename d g newName with
    | error e =>
      rw [hanswer] at h
      cases h
    | ok found =>
      rw [hanswer] at h
      simp only [bind, Except.bind, pure, Except.pure] at h
      -- A view without changes leaves the answer to the later ones.
      split at h
      · exact ih hasked h
      · cases h
        intro e he
        obtain ⟨given, -, hgiven⟩ := List.mem_filterMap.mp he
        obtain ⟨range, hrange, rfl⟩ := Option.map_eq_some_iff.mp hgiven
        exact Mapping.inBounds_toSourceSpan (hf d hd) hrange

theorem inBounds_symbols : ∀ s ∈ symbols f r, s.InBounds f.source := by
  intro s hs
  obtain ⟨⟨service, d⟩, hserved, hs⟩ := List.mem_flatMap.mp (List.mem_mergeSort.mp hs)
  dsimp only at hs
  split at hs
  · exact inBounds_carrySymbols (hf d (mem_of_mem_served hserved)) _ s hs
  · cases hs

theorem inBounds_diagnostics (hparsed : f.compiled.error? = none) :
    ∀ x ∈ diagnostics f r, x.InBounds f.source := by
  intro x hx
  rw [diagnostics, hparsed] at hx
  obtain ⟨⟨service, d⟩, hserved, hx⟩ := List.mem_flatMap.mp (List.mem_mergeSort.mp hx)
  dsimp only at hx
  split at hx
  · obtain ⟨given, -, hgiven⟩ := List.mem_filterMap.mp hx
    exact inBounds_carryDiagnostic (hf d (mem_of_mem_served hserved)) hgiven
  · cases hx

theorem inDocument_of_faithful (hparsed : f.compiled.error? = none) : InDocument f r offset where
  diagnostics := inBounds_diagnostics hf hparsed
  hover := inBounds_hover hf
  completions := inBounds_completions hf
  definition := inBounds_definition hf
  rename := fun _ _ h => inBounds_renameIn hf (fun _ hp => mem_of_mem_servedAt hp) h
  symbols := inBounds_symbols hf
  folds := inLines_folds f r

end Features

/-! ## Features over views without mapping -/

section Unmapped

variable {f : VirtualFile} {r : Registry} {offset : Nat} {d : VirtualDocument}

theorem carrySymbols_eq_nil (h : d.mapping = .empty) (ss : List Symbol) : carrySymbols d ss = [] := by
  induction ss with
  | nil => rw [carrySymbols]
  | cons s ss ih =>
    obtain ⟨e, children⟩ := s
    rw [carrySymbols, carrySymbol, h, Mapping.toSourceEnclosing_empty, ih]

variable (hf : ∀ d ∈ f.allDocuments, d.mapping = .empty)
include hf

theorem servedAt_eq_nil : servedAt f r offset = [] := by
  refine List.filterMap_eq_nil_iff.mpr fun d hd => ?_
  rw [hf d hd, Mapping.toGeneratedCursor_empty]
  rfl

theorem symbols_eq_nil : symbols f r = [] := by
  refine List.eq_nil_iff_forall_not_mem.mpr fun symbol hsymbol => ?_
  obtain ⟨⟨s, d⟩, hserved, hsymbol⟩ := List.mem_flatMap.mp (List.mem_mergeSort.mp hsymbol)
  dsimp only at hsymbol
  split at hsymbol
  · rw [carrySymbols_eq_nil (hf d (mem_of_mem_served hserved))] at hsymbol
    cases hsymbol
  · cases hsymbol

theorem serviceFolds_eq_nil : serviceFolds f r = [] := by
  refine List.flatMap_eq_nil_iff.mpr fun found hmem => ?_
  obtain ⟨s, d⟩ := found
  dsimp only
  split
  · refine List.filterMap_eq_nil_iff.mpr fun fold _ => ?_
    rw [hf d (mem_of_mem_served hmem), Mapping.toSourceEnclosing_empty]
    rfl
  · rfl

theorem silent_of_unmapped {e : ParseError} (he : f.compiled.tree = .error e) : Silent f r offset e where
  diagnostics := by simp only [diagnostics, Compilation.error?, he]
  hover := by rw [hover, servedAt_eq_nil hf, List.findSome?_nil]
  completions := by rw [completions, servedAt_eq_nil hf, List.findSome?_nil, Option.getD_none]
  definition := by rw [definition, servedAt_eq_nil hf, List.findSome?_nil, Option.getD_none]
  rename := fun newName => by rw [rename, servedAt_eq_nil hf, renameIn]
  symbols := symbols_eq_nil hf
  folds := by
    rw [folds, serviceFolds_eq_nil hf, treeFolds, Compilation.tree?, he]
    simp [Except.toOption, dedupFolds]

end Unmapped

/-! ## Every document -/

section UpToDate

variable {f : VirtualFile} {r : Registry} {offset : Nat} {e : ParseError}

theorem silent_of_error (hf : f.UpToDate) (he : parse f.options.parseOptions f.source = .error e) :
    Silent f r offset e := by
  have hcompiled : f.compiled = ⟨.error e, fallbackViews f.source⟩ := hf.trans (compile_of_error he)
  refine silent_of_unmapped (fun d hd => ?_) (by rw [hcompiled])
  rw [VirtualFile.allDocuments, hcompiled] at hd
  simp only [Compilation.allDocuments, fallbackViews, DocumentGroup.all, List.flatMap_cons,
    List.flatMap_nil, List.append_nil, List.mem_append, List.mem_singleton] at hd
  rcases hd with rfl | rfl <;> rfl

/-- The parse error is all there is, and it lies in the document. -/
theorem Silent.inDocument (h : Silent f r offset e) (he : e.span.InBounds f.source) :
    InDocument f r offset where
  diagnostics := by
    rw [h.diagnostics, List.forall_mem_singleton]
    exact ⟨he, by simp⟩
  hover := by simp [h.hover]
  completions := by simp [h.completions]
  definition := by simp [h.definition]
  rename := by simp [h.rename]
  symbols := by simp [h.symbols]
  folds := by simp [h.folds]

theorem inBounds_of_blamed {cs : List Char} (h : e.Blamed cs) : e.span.InBounds cs := by
  obtain ⟨a, b, t, ha, ht, -, hspan, -⟩ := h
  rw [hspan]
  exact (Span.inText_spanTo ha ht.reaches).inBounds

theorem inDocument_of_upToDate (hf : f.UpToDate) : InDocument f r offset := by
  cases hparse : parse f.options.parseOptions f.source with
  | ok root =>
    have hcompiled : f.compiled = ⟨.ok root, viewsOf f.options f.source root⟩ :=
      hf.trans (compile_of_parse hparse)
    refine inDocument_of_faithful (fun d hd => ?_) (by rw [hcompiled]; rfl)
    rw [VirtualFile.allDocuments, hcompiled] at hd
    exact faithful_viewsOf f.options (sound_of_parse hparse) d hd
  | error e =>
    exact (silent_of_error hf hparse).inDocument (inBounds_of_blamed (parse_error_blamed hparse))

end UpToDate

end Feature

/-- **Features stay in the document.** However a document was changed since it was opened, whatever
its services answer and wherever the cursor is, all spans and lines that the features give lie in
the document, those of related places and of nested symbols included. If the text does not parse,
the diagnostics are the parse error alone and no other feature gives anything. -/
theorem features_in_document (id : String) (source : List Char) (options : CompileOptions)
    (changes : List Edit) (r : Registry) (offset : Nat) :
    let f := (VirtualFile.create id source options).edits changes
    Feature.InDocument f r offset ∧
      ∀ e, parse f.options.parseOptions f.source = .error e → Feature.Silent f r offset e := by
  intro f
  have hf : f.UpToDate := (upToDate_create id source options).edits changes
  exact ⟨Feature.inDocument_of_upToDate hf, fun e he => Feature.silent_of_error hf he⟩

/-- A service whose spans are reversed or run past the view. -/
def Service.astray : Service where
  language := .script
  diagnostics := fun d => .ok [⟨⟨9, 3⟩, .error, none, "", "", [⟨⟨0, byteLength d.text + 9⟩, ""⟩]⟩]
  hover := fun _ offset => .ok (some ⟨some ⟨offset, 0⟩, ""⟩)
  folds := fun d => .ok [⟨⟨0, byteLength d.text + 9⟩, none⟩]

/-- An element over some lines, and the document after the closing tag is gone. -/
theorem features_in_document_astray :
    let r := Registry.empty.register .astray
    let f := VirtualFile.create "a" "<b>\n\nx\n\n</b>".toList {}
    let broken := f.edits [.reconfigure { checkJs := true }, .update "<b>x".toList]
    let e : ParseError := ⟨.unclosedTag "<b>" .paragraph, ⟨0, 1⟩⟩
    (f.compiled.error? = none ∧ Feature.InDocument f r 1) ∧
      parse broken.options.parseOptions broken.source = .error e ∧ Feature.Silent broken r 1 e := by
  intro r f broken e
  have hparsed : f.compiled.error? = none := by decide +kernel
  have hbroken : parse (CompileOptions.parseOptions { checkJs := true }) "<b>x".toList = .error e := rfl
  exact ⟨⟨hparsed, (features_in_document "a" _ {} [] r 1).1⟩, hbroken,
    (features_in_document "a" _ {} _ r 1).2 e hbroken⟩

end Mdx

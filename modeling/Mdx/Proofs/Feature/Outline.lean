/-
The outline of a document. A range of an entry may hold text of no source, so an
entry comes back as the hull of what it has of the document, and it is dropped if
it has nothing. An entry lies in the one around it, and what is mapped of it is
mapped there too: so no entry is dropped above one that stays (`entries_carrySymbol`),
and hulls lie in each other as the ranges do (`nested_carrySymbol`).

The entries of all views are then put in the order of their places
(`symbols_keep_outline`).
-/
import Mathlib.Data.List.Forall2
import Mdx.Feature.Basic
import Mdx.Proofs.Feature.Stable
import Mdx.Proofs.Mapping.Enclosing
import Mdx.Proofs.Service.Symbol

namespace Mdx

/-- The entries follow each other in the generated text. -/
def Mapping.Ascending (m : Mapping) : Prop :=
  m.entries.Pairwise fun e f => e.generated + e.length ≤ f.generated

/-- Some byte of the generated span is mapped. -/
def Mapping.meets (m : Mapping) (s : Span) : Bool :=
  (List.range' s.start s.length).any fun g => (m.toSource g).isSome

theorem Mapping.meets_iff {m : Mapping} {s : Span} : m.meets s = true ↔ ∃ o, m.ImageOf s o := by
  simp only [meets, List.any_eq_true, List.mem_range'_1, Option.isSome_iff_exists, ImageOf, Span.contains_iff,
    Span.length]
  constructor
  · rintro ⟨g, hg, o, ho⟩
    exact ⟨o, g, by omega, ho⟩
  · rintro ⟨o, g, hg, ho⟩
    exact ⟨g, by omega, o, ho⟩

theorem Mapping.meets_mono {m : Mapping} {s t : Span} (h : m.meets s = true) (hw : s.Within t) :
    m.meets t = true := by
  obtain ⟨o, ho⟩ := meets_iff.mp h
  exact meets_iff.mpr ⟨o, ho.mono hw⟩

/-- How an entry of a view stands in the document: around all that is mapped of it, and selected in its
range, by what is mapped of its selection wherever that is possible. -/
structure CarriedEntry (d : VirtualDocument) (e e' : SymbolEntry) : Prop where
  labels : e' = { e with range := e'.range, selection := e'.selection }
  smallest : e'.range.Smallest (d.mapping.ImageOf e.range)
  nonempty : e'.range.start < e'.range.stop
  inside : e'.selection.Within e'.range
  selected : ∀ s, d.mapping.toSourceEnclosing e.selection = some s → s.Within e'.range → e'.selection = s

/-- How an entry of a view, with what is below it, stands in the document. Of the entries below it those
stay, in their order and below it, of which some byte is mapped. -/
inductive Carried (d : VirtualDocument) : Symbol → Symbol → Prop
  | mk {e e' : SymbolEntry} {children children' : List Symbol} : CarriedEntry d e e' →
    List.Forall₂ (Carried d) (children.filter fun c => d.mapping.meets c.entry.range) children' →
    Carried d (.mk e children) (.mk e' children')

/-- How the outline of a view stands in the document. -/
structure CarriedOutline (d : VirtualDocument) (given carried : List Symbol) : Prop where
  /-- Each entry that is mapped stays where it was. -/
  kept : List.Forall₂ (Carried d) (given.filter fun s => d.mapping.meets s.entry.range) carried
  /-- No entry that is mapped is lost, however deep it is. -/
  entries : List.Forall₂ (CarriedEntry d) ((entriesAll given).filter fun e => d.mapping.meets e.range)
    (entriesAll carried)
  nested : ∀ s ∈ carried, s.Nested
  selected : ∀ e ∈ entriesAll carried, e.selection.Within e.range

namespace Feature

variable {d : VirtualDocument} {e : SymbolEntry} {s t : Symbol} {ss : List Symbol}

theorem carrySymbols_eq (d : VirtualDocument) (ss : List Symbol) :
    carrySymbols d ss = ss.filterMap (carrySymbol d) := by
  induction ss with
  | nil => rfl
  | cons s ss ih =>
    rw [carrySymbols, List.filterMap_cons, ih]
    cases carrySymbol d s <;> rfl

/-- **What becomes of an entry:** it is dropped if none of its bytes is mapped, and stays otherwise. -/
theorem carrySymbol_cases (h : d.mapping.Ascending) (hne : e.range.start < e.range.stop)
    (children : List Symbol) :
    (d.mapping.meets e.range = false ∧ carrySymbol d (.mk e children) = none) ∨
      (d.mapping.meets e.range = true ∧ ∃ e', CarriedEntry d e e' ∧
        carrySymbol d (.mk e children) = some (.mk e' (carrySymbols d children))) := by
  rcases Mapping.toSourceEnclosing_cases h hne with ⟨hnone, hout⟩ | ⟨range, hsome, ⟨o, ho⟩, hsmallest⟩
  · refine .inl ⟨Bool.eq_false_iff.mpr fun hmeets => ?_, by rw [carrySymbol, hnone]⟩
    obtain ⟨o, ho⟩ := Mapping.meets_iff.mp hmeets
    exact hout o ho
  · refine .inr ⟨Mapping.meets_iff.mpr ⟨o, ho⟩, _, ?_, by rw [carrySymbol, hsome]⟩
    have hcontains := Span.contains_iff.mp (hsmallest.contains o ho)
    refine ⟨rfl, hsmallest, by dsimp only; omega, ?_, fun s hs hw => ?_⟩
    · dsimp only
      cases hselection : (d.mapping.toSourceEnclosing e.selection).filter _ with
      | none => exact .refl range
      | some s =>
        obtain ⟨-, hin⟩ := Option.filter_eq_some_iff.mp hselection
        simp only [Bool.and_eq_true, decide_eq_true_eq] at hin
        exact ⟨hin.1, hin.2⟩
    · obtain ⟨hstart, hstop⟩ := hw
      dsimp only at hstart hstop ⊢
      rw [hs, Option.filter_some, if_pos (by simp [hstart, hstop]), Option.getD_some]

/-- An entry stays exactly if some byte of it is mapped. -/
theorem isSome_carrySymbol (h : d.mapping.Ascending) (hs : s.Nested) :
    (carrySymbol d s).isSome = d.mapping.meets s.entry.range := by
  cases hs with
  | @mk e children hne =>
  rcases carrySymbol_cases h hne children with ⟨hmeets, hnone⟩ | ⟨hmeets, e', -, hsome⟩
  · rw [hnone, Symbol.entry, hmeets, Option.isSome_none]
  · rw [hsome, Symbol.entry, hmeets, Option.isSome_some]

/-- What holds of each outline that stays holds of them all, in order. -/
theorem forall₂_carrySymbols {R : Symbol → Symbol → Prop} (h : d.mapping.Ascending) (hss : ∀ s ∈ ss, s.Nested)
    (hR : ∀ s ∈ ss, ∀ t, carrySymbol d s = some t → R s t) :
    List.Forall₂ R (ss.filter fun s => d.mapping.meets s.entry.range) (carrySymbols d ss) := by
  rw [carrySymbols_eq]
  induction ss with
  | nil => exact .nil
  | cons s ss ih =>
    rw [List.forall_mem_cons] at hss hR
    have hlater := ih hss.2 hR.2
    have hstays := isSome_carrySymbol h hss.1
    rw [List.filter_cons, ← hstays]
    cases ht : carrySymbol d s with
    | none =>
      rw [List.filterMap_cons_none ht]
      exact hlater
    | some t =>
      rw [List.filterMap_cons_some ht]
      exact .cons (hR.1 t ht) hlater

/-- **Entries stay below the entry that they were below.** -/
theorem carried_carrySymbol (h : d.mapping.Ascending) (hs : s.Nested) :
    ∀ t, carrySymbol d s = some t → Carried d s t := by
  induction hs with
  | @mk e children hne _ hnested ih =>
    intro t ht
    rcases carrySymbol_cases h hne children with ⟨-, hnone⟩ | ⟨-, e', hcarried, hsome⟩
    · cases hnone.symm.trans ht
    · cases hsome.symm.trans ht
      exact .mk hcarried (forall₂_carrySymbols h hnested ih)

/-- What holds of the entries of each outline holds of the entries of them all. -/
theorem entriesAll_carrySymbols {R : SymbolEntry → SymbolEntry → Prop} {p : SymbolEntry → Bool}
    (hss : ∀ s ∈ ss, List.Forall₂ R (s.entries.filter p) (entriesAll (carrySymbol d s).toList)) :
    List.Forall₂ R ((entriesAll ss).filter p) (entriesAll (carrySymbols d ss)) := by
  rw [carrySymbols_eq, List.filterMap_eq_flatMap_toList]
  induction ss with
  | nil => exact .nil
  | cons s ss ih =>
    rw [List.forall_mem_cons] at hss
    rw [entriesAll, List.filter_append, List.flatMap_cons, entriesAll_append]
    exact List.rel_append hss.1 (ih hss.2)

/-- **No entry that is mapped is lost,** since all entries around it are mapped too. -/
theorem entries_carrySymbol (h : d.mapping.Ascending) (hs : s.Nested) : List.Forall₂ (CarriedEntry d)
    (s.entries.filter fun e => d.mapping.meets e.range) (entriesAll (carrySymbol d s).toList) := by
  have hwithin := hs.within
  induction hs with
  | @mk e children hne _ hnested ih =>
    rcases carrySymbol_cases h hne children with ⟨hmeets, hnone⟩ | ⟨hmeets, e', hcarried, hsome⟩
    · have hall : (Symbol.entries (.mk e children)).filter (fun e => d.mapping.meets e.range) = [] :=
        List.filter_eq_nil_iff.mpr fun e' he' hmeets' =>
          Bool.false_ne_true (hmeets.symm.trans (Mapping.meets_mono hmeets' (hwithin e' he')))
      rw [hall, hnone]
      exact .nil
    · rw [hsome, Symbol.entries, List.filter_cons, if_pos hmeets, Option.toList_some, entriesAll, entriesAll,
        Symbol.entries, List.append_nil]
      exact .cons hcarried (entriesAll_carrySymbols fun c hc => ih c hc (hnested c hc).within)

/-- **Ranges lie in each other in the document as they do in the view.** -/
theorem nested_carrySymbol (h : d.mapping.Ascending) (hs : s.Nested) :
    ∀ t, carrySymbol d s = some t → t.Nested := by
  induction hs with
  | @mk e children hne hchildren hnested ih =>
    intro t ht
    rcases carrySymbol_cases h hne children with ⟨-, hnone⟩ | ⟨-, e', hcarried, hsome⟩
    · cases hnone.symm.trans ht
    · cases hsome.symm.trans ht
      refine .mk hcarried.nonempty (fun t ht => ?_) fun t ht => ?_
      all_goals
        rw [carrySymbols_eq] at ht
        obtain ⟨c, hc, hcarry⟩ := List.mem_filterMap.mp ht
      · have hin := hchildren c hc
        cases carried_carrySymbol h (hnested c hc) t hcarry with
        | mk hbelow => exact hbelow.smallest.mono hcarried.smallest fun o ho => ho.mono hin
      · exact ih c hc t hcarry

/-- **The outline of a view keeps its structure in the document.** -/
theorem carriedOutline_carrySymbols (h : d.mapping.Ascending) (hss : ∀ s ∈ ss, s.Nested) :
    CarriedOutline d ss (carrySymbols d ss) := by
  have hentries : List.Forall₂ (CarriedEntry d) ((entriesAll ss).filter fun e => d.mapping.meets e.range)
      (entriesAll (carrySymbols d ss)) := entriesAll_carrySymbols fun s hs => entries_carrySymbol h (hss s hs)
  refine ⟨forall₂_carrySymbols h hss fun s hs => carried_carrySymbol h (hss s hs), hentries, fun t ht => ?_,
    fun e he => ?_⟩
  · rw [carrySymbols_eq] at ht
    obtain ⟨s, hs, hcarry⟩ := List.mem_filterMap.mp ht
    exact nested_carrySymbol h (hss s hs) t hcarry
  · obtain ⟨i, hi, rfl⟩ := List.mem_iff_getElem.mp he
    exact (hentries.get (hentries.length_eq ▸ hi) hi).inside

/-- What a service says of a view; an error says nothing. -/
def outlineOf (p : Service × VirtualDocument) : List Symbol := (p.1.symbols p.2).toOption.getD []

theorem symbols_eq (f : VirtualFile) (r : Registry) : symbols f r =
    ((served f r).map fun p => carrySymbols p.2 (outlineOf p)).flatten.mergeSort
      fun a b => a.entry.range.start ≤ b.entry.range.start := by
  rw [symbols, List.flatMap_def]
  refine congrArg (fun ss : List (List Symbol) => ss.flatten.mergeSort _) (List.map_congr_left fun p _ => ?_)
  dsimp only
  cases hp : p.1.symbols p.2 <;> simp [outlineOf, hp, Except.toOption, carrySymbols]

/-- **The outline of a document keeps the structure of the outlines of its views,** and has them in the order of
their places, those at one place in the order of the views. This holds of each view whose entries follow each
other in the generated text and whose outline is nested: an entry stays exactly if some byte of it is mapped,
whatever stands around it; it stays below the same entry and behind the same ones; it lies in the entry that it
is below, and its selection lies in its range. -/
theorem symbols_keep_outline (f : VirtualFile) (r : Registry) : ∃ outlines : List (List Symbol),
    StablySorted (·.entry.range.start) outlines.flatten (symbols f r) ∧
      List.Forall₂ (fun p carried => p.2.mapping.Ascending → (∀ s ∈ outlineOf p, s.Nested) →
        CarriedOutline p.2 (outlineOf p) carried) (served f r) outlines := by
  refine ⟨_, symbols_eq f r ▸ stablySorted_mergeSort _ _, ?_⟩
  rw [List.forall₂_map_right_iff, List.forall₂_same]
  exact fun p _ h hss => carriedOutline_carrySymbols h hss

/-- An entry over two pieces that change places in the document, with text of no source around them. One entry
below it is in each piece, and one is in neither. -/
theorem symbols_keep_outline_reversed :
    let entry (name : String) (range : Span) : SymbolEntry := ⟨name, none, .constant, range, ⟨range.start, range.start⟩⟩
    let below : List Symbol := [.mk (entry "a" ⟨11, 13⟩) [], .mk (entry "b" ⟨15, 18⟩) [], .mk (entry "c" ⟨18, 22⟩) []]
    let outline : List Symbol := [.mk (entry "all" ⟨8, 30⟩) below]
    let d : VirtualDocument := ⟨"jsx", .script, [], ⟨[⟨20, 10, 4⟩, ⟨0, 20, 4⟩]⟩⟩
    let f : VirtualFile := ⟨"a", [], {}, ⟨.ok (.leaf .root ⟨0, 24⟩), [⟨d, []⟩]⟩, 0⟩
    let r := Registry.empty.register { language := .script, symbols := fun _ => .ok outline }
    d.mapping.Ascending ∧ (∀ s ∈ outline, s.Nested) ∧
      ((entriesAll outline).filter fun e => d.mapping.meets e.range).map SymbolEntry.name = ["all", "a", "c"] ∧
      ∃ carried, CarriedOutline d outline carried ∧
        StablySorted (·.entry.range.start) carried (symbols f r) := by
  intro entry below outline d f r
  have hascending : d.mapping.Ascending := by
    show List.Pairwise _ [_, _]
    decide
  have hleaf : ∀ c ∈ below, c.Nested := by
    simp only [below, List.forall_mem_cons]
    exact ⟨.mk (by decide) (by simp) (by simp), .mk (by decide) (by simp) (by simp),
      .mk (by decide) (by simp) (by simp), by simp⟩
  have hnested : ∀ s ∈ outline, s.Nested := by
    refine List.forall_mem_singleton.mpr (.mk (by decide) ?_ hleaf)
    simp only [below, List.forall_mem_cons]
    exact ⟨⟨by decide, by decide⟩, ⟨by decide, by decide⟩, ⟨by decide, by decide⟩, by simp⟩
  obtain ⟨outlines, hsorted, hcarried⟩ := symbols_keep_outline f r
  obtain ⟨carried, later, hfirst, hlater, rfl⟩ := List.forall₂_cons_left_iff.mp hcarried
  cases hlater
  rw [List.flatten_singleton] at hsorted
  exact ⟨hascending, hnested, by decide, carried, hfirst hascending hnested, hsorted⟩

end Feature

end Mdx

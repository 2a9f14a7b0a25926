/-
A mapping as a relation between bytes: `Relates es s g` says that the source
byte at `s` stands at `g` of the generated text. Dropping empty entries and
joining those that continue each other do not change it (`relates_ofEntries`).
If no byte is in two entries, each lookup finds the one entry that holds it, so
the two lookups compute the relation and are inverse to each other.
-/
import Mdx.Mapping
import Mdx.Proofs.Text.Span

namespace Mdx

/-- The source byte at `s` stands at `g` by this entry. -/
def Entry.Relates (e : Entry) (s g : Nat) : Prop :=
  ∃ i, i < e.length ∧ s = e.source + i ∧ g = e.generated + i

/-- The source byte at `s` stands at `g` by one of the entries. -/
def Relates (es : List Entry) (s g : Nat) : Prop := ∃ e ∈ es, e.Relates s g

section Entry

variable {e f : Entry} {s g : Nat}

theorem Entry.relates_iff : e.Relates s g ↔
    e.source ≤ s ∧ s < e.source + e.length ∧ s + e.generated = g + e.source := by
  constructor
  · rintro ⟨i, hi, rfl, rfl⟩
    omega
  · rintro ⟨hle, hlt, heq⟩
    exact ⟨s - e.source, by omega, by omega, by omega⟩

theorem Entry.relates_flip : e.flip.Relates g s ↔ e.Relates s g := by
  simp only [Entry.relates_iff, Entry.flip]
  omega

theorem Entry.continuedBy_iff : e.continuedBy f = true ↔
    e.source + e.length = f.source ∧ e.generated + e.length = f.generated := by
  simp [Entry.continuedBy]

/-- An entry and the one that continues it say together what they say apart. -/
theorem Entry.relates_join (h : e.continuedBy f = true) :
    Entry.Relates ⟨e.source, e.generated, e.length + f.length⟩ s g ↔ e.Relates s g ∨ f.Relates s g := by
  have hc := Entry.continuedBy_iff.mp h
  simp only [Entry.relates_iff]
  omega

theorem Entry.sourceSpan_join (h : e.continuedBy f = true) :
    Entry.sourceSpan ⟨e.source, e.generated, e.length + f.length⟩ =
      ⟨e.sourceSpan.start, f.sourceSpan.stop⟩ := by
  have := Entry.continuedBy_iff.mp h
  simp only [sourceSpan, Span.ofLength, Span.mk.injEq, true_and]
  omega

theorem Entry.generatedSpan_join (h : e.continuedBy f = true) :
    Entry.generatedSpan ⟨e.source, e.generated, e.length + f.length⟩ =
      ⟨e.generatedSpan.start, f.generatedSpan.stop⟩ := by
  have := Entry.continuedBy_iff.mp h
  simp only [generatedSpan, Span.ofLength, Span.mk.injEq, true_and]
  omega

theorem Entry.contains_sourceSpan : e.sourceSpan.contains s = true ↔ ∃ g, e.Relates s g := by
  simp only [Span.contains_iff, Entry.sourceSpan, Span.ofLength]
  constructor
  · rintro ⟨hle, hlt⟩
    exact ⟨e.generated + (s - e.source), s - e.source, by omega, by omega, rfl⟩
  · rintro ⟨g, i, hi, rfl, rfl⟩
    omega

theorem relates_cons {es : List Entry} : Relates (e :: es) s g ↔ e.Relates s g ∨ Relates es s g := by
  simp [Relates]

theorem relates_append {es fs : List Entry} :
    Relates (es ++ fs) s g ↔ Relates es s g ∨ Relates fs s g := by
  simp [Relates, or_and_right, exists_or]

end Entry

/-! ## Joining entries -/

section Coalesce

variable {es : List Entry}

theorem relates_coalesce {s g : Nat} : Relates (coalesce es) s g ↔ Relates es s g := by
  fun_induction coalesce es with
  | case1 => rfl
  | case2 => rfl
  | case3 e f es hcont ih =>
    rw [ih, relates_cons, Entry.relates_join hcont, relates_cons, relates_cons, or_assoc]
  | case4 e f es _ ih => rw [relates_cons, ih, ← relates_cons]

/-- What holds of the entries and of two that are joined holds of the joined ones. -/
theorem forall_mem_coalesce {P : Entry → Prop}
    (hjoin : ∀ e f, P e → P f → e.continuedBy f = true → P ⟨e.source, e.generated, e.length + f.length⟩)
    (h : ∀ e ∈ es, P e) : ∀ e ∈ coalesce es, P e := by
  fun_induction coalesce es with
  | case1 => exact h
  | case2 => exact h
  | case3 e f es hcont ih =>
    simp only [List.forall_mem_cons] at h
    exact ih (List.forall_mem_cons.mpr ⟨hjoin e f h.1 h.2.1 hcont, h.2.2⟩)
  | case4 e f es _ ih =>
    rw [List.forall_mem_cons] at h
    exact List.forall_mem_cons.mpr ⟨h.1, ih h.2⟩

/-- A relation between entries that joining respects on both sides is kept. -/
theorem pairwise_coalesce {R : Entry → Entry → Prop}
    (hleft : ∀ e f d, R e d → R f d → e.continuedBy f = true →
      R ⟨e.source, e.generated, e.length + f.length⟩ d)
    (hright : ∀ d e f, R d e → R d f → e.continuedBy f = true →
      R d ⟨e.source, e.generated, e.length + f.length⟩)
    (h : es.Pairwise R) : (coalesce es).Pairwise R := by
  fun_induction coalesce es with
  | case1 => exact h
  | case2 => exact h
  | case3 e f es hcont ih =>
    obtain ⟨he, hf, hrest⟩ := by simpa only [List.pairwise_cons] using h
    refine ih (List.pairwise_cons.mpr ⟨fun d hd => ?_, hrest⟩)
    exact hleft e f d (he d (List.mem_cons_of_mem _ hd)) (hf d hd) hcont
  | case4 e f es _ ih =>
    obtain ⟨he, hrest⟩ := List.pairwise_cons.mp h
    exact List.pairwise_cons.mpr ⟨forall_mem_coalesce (hright e) he, ih hrest⟩

/-- The first of the joined entries starts where the first entry does. -/
theorem coalesce_cons (e : Entry) (es : List Entry) :
    ∃ length rest, coalesce (e :: es) = ⟨e.source, e.generated, length⟩ :: rest := by
  induction es generalizing e with
  | nil => exact ⟨e.length, [], by simp [coalesce]⟩
  | cons f es ih =>
    rw [coalesce]
    split
    · exact ih _
    · exact ⟨e.length, _, rfl⟩

/-- No entry is left that continues the one before it. -/
theorem continuedBy_eq_false_of_coalesce {front back : List Entry} {x y : Entry}
    (h : coalesce es = front ++ x :: y :: back) : x.continuedBy y = false := by
  fun_induction coalesce es generalizing front with
  | case1 => simp at h
  | case2 e => cases front <;> simp at h
  | case3 e f es _ ih => exact ih h
  | case4 e f es hcont ih =>
    cases front with
    | nil =>
      obtain ⟨length, rest, heq⟩ := coalesce_cons f es
      rw [heq] at h
      simp only [List.nil_append, List.cons.injEq] at h
      obtain ⟨rfl, rfl, -⟩ := h
      simpa [Entry.continuedBy] using hcont
    | cons z front =>
      rw [List.cons_append, List.cons.injEq] at h
      exact ih h.2

end Coalesce

/-! ## Lookups -/

/-- No entry is empty, they follow each other in the generated text, and no byte of the source is in
two of them. -/
structure WellFormed (es : List Entry) : Prop where
  nonempty : ∀ e ∈ es, 0 < e.length
  ascending : es.Pairwise fun e f => e.generated + e.length ≤ f.generated
  disjoint : es.Pairwise fun e f => e.sourceSpan.Disjoint f.sourceSpan

namespace Mapping

/-- A lookup among entries that follow each other finds the one that holds the byte. -/
theorem carry_eq_some_iff {es : List Entry} (h : es.Pairwise fun e f => e.source + e.length ≤ f.source)
    {s g : Nat} : carry false es s = some g ↔ Relates es s g := by
  constructor
  · intro hc
    simp only [carry, Option.bind_eq_bind, Option.bind_eq_some_iff] at hc
    obtain ⟨e, he, hc⟩ := hc
    obtain ⟨hmem, hle⟩ := List.mem_filter.mp (List.mem_of_getLast? he)
    simp only [decide_eq_true_eq, Bool.false_and, Bool.or_false] at hle hc
    split at hc
    · next hlt =>
      refine ⟨e, hmem, Entry.relates_iff.mpr ⟨hle, hlt, ?_⟩⟩
      simp only [Entry.shift, Option.some.injEq] at hc
      omega
    · cases hc
  · rintro ⟨e, he, hrel⟩
    obtain ⟨hle, hlt, heq⟩ := Entry.relates_iff.mp hrel
    obtain ⟨front, back, rfl⟩ := List.append_of_mem he
    -- The entries behind `e` start behind the byte, so `e` is the last that does not.
    have hback : back.filter (·.source ≤ s) = [] := by
      rw [List.filter_eq_nil_iff]
      intro f hf
      have := (List.pairwise_cons.mp (List.pairwise_append.mp h).2.1).1 f hf
      simp only [decide_eq_true_eq]
      omega
    have hlast : ((front ++ e :: back).filter (·.source ≤ s)).getLast? = some e := by
      simp [List.filter_append, hle, hback]
    simp only [carry, hlast, Option.bind_eq_bind, Option.bind_some]
    simp only [hlt, decide_true, Bool.true_or, if_true, Option.some.injEq, Entry.shift]
    omega

variable {m : Mapping}

/-- In the order of the source the entries follow each other as well. -/
theorem bySource_pairwise (h : WellFormed m.entries) :
    m.bySource.Pairwise fun e f => e.source + e.length ≤ f.source := by
  have hperm : m.bySource.Perm m.entries := List.mergeSort_perm _ _
  have hsorted : m.bySource.Pairwise fun e f => decide (e.source ≤ f.source) = true :=
    List.pairwise_mergeSort (fun a b c hab hbc => by simp only [decide_eq_true_eq] at *; omega)
      (fun a b => by simp only [Bool.or_eq_true, decide_eq_true_eq]; omega) _
  have hdisjoint : m.bySource.Pairwise fun e f => e.sourceSpan.Disjoint f.sourceSpan :=
    hperm.symm.pairwise h.disjoint fun hef => hef.symm
  refine (hsorted.and hdisjoint).imp_of_mem fun {e f} he hf hef => ?_
  have hpos := h.nonempty f (hperm.mem_iff.mp hf)
  have hle : e.source ≤ f.source := by simpa using hef.1
  -- Else the first byte of `f` would be in `e` too.
  by_cases hlt : f.source < e.source + e.length
  · refine absurd ⟨?_, ?_⟩ (hef.2 f.source)
    · exact Span.contains_iff.mpr ⟨hle, hlt⟩
    · exact Span.contains_iff.mpr ⟨Nat.le_refl _, Nat.lt_add_of_pos_right hpos⟩
  · omega

theorem toGenerated_eq_some_iff (h : WellFormed m.entries) {s g : Nat} :
    m.toGenerated s = some g ↔ Relates m.entries s g := by
  rw [toGenerated, carry_eq_some_iff (bySource_pairwise h)]
  simp [Relates, bySource]

/-- Where the entries stand in the source does not matter for the way back. -/
theorem toSource_eq_some_iff_of_ascending
    (h : m.entries.Pairwise fun e f => e.generated + e.length ≤ f.generated) {s g : Nat} :
    m.toSource g = some s ↔ Relates m.entries s g := by
  rw [toSource, carry_eq_some_iff (List.pairwise_map.mpr h)]
  constructor
  · rintro ⟨_, hmem, hrel⟩
    obtain ⟨e, he, rfl⟩ := List.mem_map.mp hmem
    exact ⟨e, he, Entry.relates_flip.mp hrel⟩
  · rintro ⟨e, he, hrel⟩
    exact ⟨e.flip, List.mem_map.mpr ⟨e, he, rfl⟩, Entry.relates_flip.mpr hrel⟩

theorem toSource_eq_some_iff (h : WellFormed m.entries) {s g : Nat} :
    m.toSource g = some s ↔ Relates m.entries s g :=
  toSource_eq_some_iff_of_ascending h.ascending

/-- The two lookups are inverse to each other. -/
theorem toGenerated_eq_some_iff_toSource (h : WellFormed m.entries) {s g : Nat} :
    m.toGenerated s = some g ↔ m.toSource g = some s := by
  rw [toGenerated_eq_some_iff h, toSource_eq_some_iff h]

/-! ## Mappings of entries -/

section OfEntries

variable {es : List Entry}

theorem relates_ofEntries {s g : Nat} : Relates (ofEntries es).entries s g ↔ Relates es s g := by
  rw [ofEntries, relates_coalesce]
  constructor
  · rintro ⟨e, he, hrel⟩
    exact ⟨e, (List.mem_filter.mp he).1, hrel⟩
  · rintro ⟨e, he, i, hi, hrel⟩
    exact ⟨e, List.mem_filter.mpr ⟨he, by simp; omega⟩, i, hi, hrel⟩

theorem wellFormed_ofEntries (hasc : es.Pairwise fun e f => e.generated + e.length ≤ f.generated)
    (hdisjoint : es.Pairwise fun e f => e.sourceSpan.Disjoint f.sourceSpan) :
    WellFormed (ofEntries es).entries where
  nonempty := by
    refine forall_mem_coalesce (fun e f he _ _ => ?_) fun e he => ?_
    · exact Nat.add_pos_left he _
    · simpa using (List.mem_filter.mp he).2
  ascending := by
    refine pairwise_coalesce (fun e f d he hf hcont => ?_) (fun d e f he _ _ => he) (hasc.filter _)
    have := Entry.continuedBy_iff.mp hcont
    simp only
    omega
  disjoint := by
    -- A byte of two entries that are joined is in one of them.
    have hjoin : ∀ {e f : Entry} {o : Nat}, e.continuedBy f = true →
        (Entry.sourceSpan ⟨e.source, e.generated, e.length + f.length⟩).contains o = true →
        e.sourceSpan.contains o = true ∨ f.sourceSpan.contains o = true := by
      intro e f o hcont
      simp only [Entry.contains_sourceSpan, Entry.relates_join hcont]
      rintro ⟨g, hg | hg⟩
      · exact .inl ⟨g, hg⟩
      · exact .inr ⟨g, hg⟩
    refine pairwise_coalesce (fun e f d he hf hcont o ho => ?_) (fun d e f he hf hcont o ho => ?_)
      (hdisjoint.filter _)
    · rcases hjoin hcont ho.1 with h | h
      · exact he o ⟨h, ho.2⟩
      · exact hf o ⟨h, ho.2⟩
    · rcases hjoin hcont ho.2 with h | h
      · exact he o ⟨ho.1, h⟩
      · exact hf o ⟨ho.1, h⟩

end OfEntries

end Mapping

end Mdx

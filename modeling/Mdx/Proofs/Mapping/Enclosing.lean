/-
The span around what is mapped. A generated span meets some of the entries, and
what it has of each is a piece of the source; the pieces may stand there in any
order. The hull of the pieces is told by the bytes alone: it is the smallest span
that has all of them (`toSourceEnclosing_cases`). From this follows how it goes
with other spans: a larger generated span has more bytes, and the strict
translation is made of two of them, the first and the last.
-/
import Mdx.Proofs.Mapping

namespace Mdx

namespace Span

/-- The span has all offsets of `P`, and lies in every span that has them. -/
structure Smallest (P : Nat → Prop) (s : Span) : Prop where
  contains : ∀ o, P o → s.contains o = true
  within : ∀ t : Span, (∀ o, P o → t.contains o = true) → s.Within t

variable {P Q : Nat → Prop} {s t : Span}

theorem Smallest.eq (hs : s.Smallest P) (ht : t.Smallest P) : s = t := by
  have hst := hs.within t ht.contains
  have hts := ht.within s hs.contains
  cases s
  cases t
  simp only [Span.mk.injEq]
  exact ⟨Nat.le_antisymm hts.start_le hst.start_le, Nat.le_antisymm hst.le_stop hts.le_stop⟩

theorem Smallest.mono (hs : s.Smallest P) (ht : t.Smallest Q) (h : ∀ o, P o → Q o) : s.Within t :=
  hs.within t fun o ho => ht.contains o (h o ho)

/-- A span lies in all spans that have its first and its last byte. -/
theorem within_of_contains (hfirst : t.contains s.start = true)
    (hlast : t.contains (s.stop - 1) = true) : s.Within t := by
  rw [contains_iff] at hfirst hlast
  exact ⟨by omega, by omega⟩

end Span

namespace Mapping

/-! ## Hulls -/

section Hull

variable {first : Span} {rest : List Span}

theorem hull_within_iff {a b t : Span} : (hull a b).Within t ↔ a.Within t ∧ b.Within t := by
  constructor
  · intro h
    obtain ⟨hstart, hstop⟩ := h
    simp only [hull] at hstart hstop
    exact ⟨⟨by omega, by omega⟩, ⟨by omega, by omega⟩⟩
  · intro h
    obtain ⟨⟨_, _⟩, ⟨_, _⟩⟩ := h
    exact ⟨by simp only [hull]; omega, by simp only [hull]; omega⟩

theorem foldl_hull_within_iff {t : Span} :
    (rest.foldl hull first).Within t ↔ ∀ s ∈ first :: rest, s.Within t := by
  induction rest generalizing first with
  | nil => simp
  | cons s rest ih =>
    rw [List.foldl_cons, ih]
    simp only [List.forall_mem_cons, hull_within_iff, and_assoc]

/-- The hull of spans that are not empty is the smallest span around their bytes. -/
theorem smallest_foldl_hull (hne : ∀ s ∈ first :: rest, s.start < s.stop) :
    (rest.foldl hull first).Smallest fun o => ∃ s ∈ first :: rest, s.contains o = true where
  contains := by
    intro o ho
    obtain ⟨s, hs, hso⟩ := ho
    exact (foldl_hull_within_iff.mp (.refl _) s hs).contains hso
  within := by
    intro t ht
    refine foldl_hull_within_iff.mpr fun s hs => ?_
    have hlt := hne s hs
    refine Span.within_of_contains (ht _ ⟨s, hs, ?_⟩) (ht _ ⟨s, hs, ?_⟩) <;>
      rw [Span.contains_iff] <;> omega

end Hull

/-! ## Pieces of entries -/

section Piece

variable {e : Entry} {r t : Span}

theorem lt_of_coveredSource (h : coveredSource r e = some t) : t.start < t.stop := by
  simp only [coveredSource] at h
  split at h
  · cases h
    simp only
    omega
  · cases h

/-- What a generated span has of an entry are the source bytes of its own bytes. -/
theorem exists_coveredSource_iff {s : Nat} : (∃ t, coveredSource r e = some t ∧ t.contains s = true) ↔
    ∃ g, r.contains g = true ∧ e.Relates s g := by
  simp only [coveredSource, Entry.relates_iff, Span.contains_iff]
  constructor
  · intro h
    obtain ⟨t, ht, hs⟩ := h
    split at ht
    · cases ht
      simp only at hs
      exact ⟨e.generated + (s - e.source), by omega, by omega⟩
    · cases ht
  · intro h
    obtain ⟨g, hg, hrel⟩ := h
    rw [if_pos (by omega)]
    exact ⟨_, rfl, by simp only; omega⟩

end Piece

/-! ## The span around the bytes that are mapped -/

/-- The source byte at `s` stands in the generated span. -/
def ImageOf (m : Mapping) (r : Span) (s : Nat) : Prop := ∃ g, r.contains g = true ∧ m.toSource g = some s

section Enclosing

variable {m : Mapping} {r r' t : Span}

theorem ImageOf.mono {s : Nat} (h : m.ImageOf r s) (hw : r.Within r') : m.ImageOf r' s := by
  obtain ⟨g, hg, hs⟩ := h
  exact ⟨g, hw.contains hg, hs⟩

theorem imageOf_iff (h : m.entries.Pairwise fun e f => e.generated + e.length ≤ f.generated) {s : Nat} :
    m.ImageOf r s ↔ ∃ t ∈ m.entries.filterMap (coveredSource r), t.contains s = true := by
  simp only [ImageOf, toSource_eq_some_iff_of_ascending h, List.mem_filterMap]
  constructor
  · intro himage
    obtain ⟨g, hg, e, he, hrel⟩ := himage
    obtain ⟨t, ht, hs⟩ := exists_coveredSource_iff.mpr ⟨g, hg, hrel⟩
    exact ⟨t, ⟨e, he, ht⟩, hs⟩
  · intro hpiece
    obtain ⟨t, ⟨e, he, ht⟩, hs⟩ := hpiece
    obtain ⟨g, hg, hrel⟩ := exists_coveredSource_iff.mp ⟨t, ht, hs⟩
    exact ⟨g, hg, e, he, hrel⟩

/-- Either no byte of a span is mapped, or the answer is the smallest span around those that are. -/
theorem toSourceEnclosing_cases (h : m.entries.Pairwise fun e f => e.generated + e.length ≤ f.generated)
    (hr : r.start < r.stop) : (m.toSourceEnclosing r = none ∧ ∀ s, ¬ m.ImageOf r s) ∨
      ∃ t, m.toSourceEnclosing r = some t ∧ (∃ s, m.ImageOf r s) ∧ t.Smallest (m.ImageOf r) := by
  have hne : r.isEmpty = false := by simp [Span.isEmpty]; omega
  have himage : m.ImageOf r = fun s => ∃ t ∈ m.entries.filterMap (coveredSource r), t.contains s = true :=
    funext fun s => propext (imageOf_iff h)
  have hpieces : ∀ t ∈ m.entries.filterMap (coveredSource r), t.start < t.stop := by
    intro t ht
    obtain ⟨e, -, hcovered⟩ := List.mem_filterMap.mp ht
    exact lt_of_coveredSource hcovered
  rw [toSourceEnclosing, hne, himage]
  cases hlist : m.entries.filterMap (coveredSource r) with
  | nil => exact .inl ⟨rfl, by simp⟩
  | cons first rest =>
    rw [hlist] at hpieces
    refine .inr ⟨_, rfl, ⟨first.start, first, by simp, ?_⟩, smallest_foldl_hull hpieces⟩
    exact Span.contains_iff.mpr ⟨Nat.le_refl _, hpieces first (by simp)⟩

theorem toSourceEnclosing_eq_none_iff
    (h : m.entries.Pairwise fun e f => e.generated + e.length ≤ f.generated) (hr : r.start < r.stop) :
    m.toSourceEnclosing r = none ↔ ∀ s, ¬ m.ImageOf r s := by
  rcases toSourceEnclosing_cases h hr with ⟨hnone, hout⟩ | ⟨t, hsome, ⟨s, hs⟩, -⟩
  · exact iff_of_true hnone hout
  · exact iff_of_false (by simp [hsome]) fun hout => hout s hs

theorem toSourceEnclosing_eq_some_iff
    (h : m.entries.Pairwise fun e f => e.generated + e.length ≤ f.generated) (hr : r.start < r.stop) :
    m.toSourceEnclosing r = some t ↔ (∃ s, m.ImageOf r s) ∧ t.Smallest (m.ImageOf r) := by
  rcases toSourceEnclosing_cases h hr with ⟨hnone, hout⟩ | ⟨u, hsome, hin, hsmallest⟩
  · refine iff_of_false (by simp [hnone]) fun himage => ?_
    obtain ⟨⟨s, hs⟩, -⟩ := himage
    exact hout s hs
  · rw [hsome, Option.some.injEq]
    constructor
    · intro heq
      exact ⟨hin, heq ▸ hsmallest⟩
    · intro himage
      exact hsmallest.eq himage.2

/-- A larger span of the generated text has the bytes of the smaller one. -/
theorem toSourceEnclosing_mono (h : m.entries.Pairwise fun e f => e.generated + e.length ≤ f.generated)
    (hr : r.start < r.stop) (hw : r.Within r') (ht : m.toSourceEnclosing r = some t) :
    ∃ t', m.toSourceEnclosing r' = some t' ∧ t.Within t' := by
  have hr' : r'.start < r'.stop := by
    have := hw.start_le
    have := hw.le_stop
    omega
  obtain ⟨⟨s, hs⟩, hsmallest⟩ := (toSourceEnclosing_eq_some_iff h hr).mp ht
  rcases toSourceEnclosing_cases h hr' with ⟨-, hout⟩ | ⟨t', hsome, -, hsmallest'⟩
  · exact absurd (hs.mono hw) (hout s)
  · exact ⟨t', hsome, hsmallest.mono hsmallest' fun o ho => ho.mono hw⟩

/-- The strict translation is made of the images of the first and the last byte. -/
theorem imageOf_toSourceSpan (hr : r.start < r.stop) (ht : m.toSourceSpan r = some t) :
    m.ImageOf r t.start ∧ m.ImageOf r (t.stop - 1) := by
  have hne : r.isEmpty = false := by simp [Span.isEmpty]; omega
  simp only [toSourceSpan, carrySpan, hne, Bool.false_eq_true, if_false, Option.bind_eq_bind,
    Option.bind_eq_some_iff] at ht
  obtain ⟨first, hfirst, last, hlast, ht⟩ := ht
  split at ht
  · cases ht
    refine ⟨⟨r.start, ?_, hfirst⟩, ⟨r.stop - 1, ?_, hlast⟩⟩ <;> rw [Span.contains_iff] <;> omega
  · cases ht

theorem toSourceSpan_within (h : m.entries.Pairwise fun e f => e.generated + e.length ≤ f.generated)
    (ht : m.toSourceSpan r = some t) : ∃ t', m.toSourceEnclosing r = some t' ∧ t.Within t' := by
  by_cases hr : r.start < r.stop
  · obtain ⟨hfirst, hlast⟩ := imageOf_toSourceSpan hr ht
    rcases toSourceEnclosing_cases h hr with ⟨-, hout⟩ | ⟨t', hsome, -, hsmallest⟩
    · exact absurd hfirst (hout _)
    · exact ⟨t', hsome, Span.within_of_contains (hsmallest.contains _ hfirst) (hsmallest.contains _ hlast)⟩
  · -- An empty span is a cursor in both.
    have hempty : r.isEmpty = true := by simp [Span.isEmpty]; omega
    exact ⟨t, by rw [toSourceEnclosing, hempty, if_pos rfl, ht], .refl t⟩

/-- **The enclosing span is the smallest.** If the entries follow each other in the generated text, a span
of it that is not empty is carried to the smallest span around the source bytes of its own bytes, and to
nothing if it has none. So it grows with the span that is carried, and the strict translation lies in it
wherever there is one. -/
theorem toSourceEnclosing_smallest
    (h : m.entries.Pairwise fun e f => e.generated + e.length ≤ f.generated) :
    (∀ r : Span, r.start < r.stop → (m.toSourceEnclosing r = none ↔ ∀ s, ¬ m.ImageOf r s) ∧
      ∀ t, m.toSourceEnclosing r = some t ↔ (∃ s, m.ImageOf r s) ∧ t.Smallest (m.ImageOf r)) ∧
    (∀ r r' : Span, r.start < r.stop → r.Within r' → ∀ t, m.toSourceEnclosing r = some t →
      ∃ t', m.toSourceEnclosing r' = some t' ∧ t.Within t') ∧
    ∀ r t, m.toSourceSpan r = some t → ∃ t', m.toSourceEnclosing r = some t' ∧ t.Within t' :=
  ⟨fun _ hr => ⟨toSourceEnclosing_eq_none_iff h hr, fun _ => toSourceEnclosing_eq_some_iff h hr⟩,
    fun _ _ hr hw _ ht => toSourceEnclosing_mono h hr hw ht, fun _ _ ht => toSourceSpan_within h ht⟩

/-- Two entries that change places in the source, so that a span over both of them is carried to one that
starts in the second. -/
theorem toSourceEnclosing_smallest_reversed :
    let m : Mapping := ⟨[⟨20, 10, 4⟩, ⟨0, 20, 4⟩]⟩
    (m.entries.Pairwise fun e f => e.generated + e.length ≤ f.generated) ∧
      m.toSourceEnclosing ⟨12, 22⟩ = some ⟨0, 24⟩ ∧ Span.Smallest (m.ImageOf ⟨12, 22⟩) ⟨0, 24⟩ ∧
      (∃ t', m.toSourceEnclosing ⟨11, 30⟩ = some t' ∧ Span.Within ⟨0, 24⟩ t') ∧
      ∃ t', m.toSourceEnclosing ⟨21, 24⟩ = some t' ∧ Span.Within ⟨1, 4⟩ t' := by
  intro m
  have hasc : m.entries.Pairwise fun e f => e.generated + e.length ≤ f.generated := by decide
  have hsome : m.toSourceEnclosing ⟨12, 22⟩ = some ⟨0, 24⟩ := by decide
  have hstrict : m.toSourceSpan ⟨21, 24⟩ = some ⟨1, 4⟩ := by decide
  obtain ⟨hsmallest, hmono, hwithin⟩ := toSourceEnclosing_smallest hasc
  exact ⟨hasc, hsome, (((hsmallest _ (by decide)).2 _).mp hsome).2,
    hmono _ _ (by decide) ⟨by decide, by decide⟩ _ hsome, hwithin _ _ hstrict⟩

end Enclosing

end Mapping

end Mdx

/-
Spans through a faithful mapping. A span inside one entry comes back as the same
characters of the source (`toSourceSpan_of_within`), and one without a byte in
any entry does not come back (`toSourceSpan_of_disjoint`). Whatever comes back,
of any span at all, lies in the source (`inBounds_toSourceSpan`,
`inBounds_toSourceEnclosing`). A mapping without entries carries nothing back.
-/
import Mdx.Proofs.Generated
import Mdx.Proofs.Text.Line

namespace Mdx

open Cursor

/-- The span's ends are in order and in the text. -/
structure Span.InBounds (cs : List Char) (s : Span) : Prop where
  ordered : s.start ≤ s.stop
  bounded : s.stop ≤ byteLength cs

theorem Span.InText.inBounds {cs : List Char} {s : Span} (h : s.InText cs) : s.InBounds cs :=
  ⟨h.ordered, h.bounded⟩

/-- The source bytes of a part of the entry's generated span. -/
def Entry.part (e : Entry) (s : Span) : Span :=
  ⟨e.source + (s.start - e.generated), e.source + (s.stop - e.generated)⟩

variable {source text : List Char} {e : Entry} {s : Span}

/-- A part of a copied span is copied. -/
theorem Entry.Copies.part (h : e.Copies source text) (hs : s.InText text) (hw : s.Within e.generatedSpan) :
    (e.part s).InText source ∧ slice source (e.part s) = slice text s := by
  obtain ⟨a, b, t, ha, ht, hsource⟩ := h.inSource.path
  obtain ⟨c, d, u, hc, hu, hgenerated⟩ := h.inText.path
  obtain ⟨x, y, v, hx, hv, rfl⟩ := hs.path
  have heq := h.slice_eq
  rw [hsource, hgenerated, ha.slice ht, hc.slice hu] at heq
  subst heq
  obtain ⟨haStart, hcStart⟩ : a.offset = e.source ∧ c.offset = e.generated :=
    ⟨(congrArg Span.start hsource).symm, (congrArg Span.start hgenerated).symm⟩
  -- The copied text is what is before the part, the part, and what is behind it.
  rw [hgenerated] at hw
  obtain ⟨front, hfront⟩ := hc.reaches_of_le hx hw.start_le
  obtain ⟨back, rfl, -⟩ := (hfront.trans hv).split hu hw.le_stop
  rw [List.append_assoc] at ht
  obtain ⟨hfrontSource, hrest⟩ := ht.at_length
  obtain ⟨hvSource, -⟩ := hrest.at_length
  have hpart : e.part (x.spanTo y.offset) =
      (a.drop front.length).spanTo ((a.drop front.length).drop v.length).offset := by
    have := hfront.offset
    have := hv.offset
    have := hfrontSource.offset
    have := hvSource.offset
    simp only [Entry.part, spanTo, Span.mk.injEq]
    omega
  have hon := ha.reaches hfrontSource.reaches
  rw [hpart, hon.slice hvSource, hx.slice hv]
  exact ⟨Span.inText_spanTo hon hvSource.reaches, rfl⟩

/-- A copied character stands in the text where the entry says. -/
theorem Entry.Copies.charAt? (h : e.Copies source text) {o : Nat} {ch : Char} (hch : charAt? source o = some ch)
    (ho : e.sourceSpan.contains o = true) : charAt? text (e.shift o) = some ch := by
  obtain ⟨a, b, t, ha, ht, hsource⟩ := h.inSource.path
  obtain ⟨c, d, u, hc, hu, hgenerated⟩ := h.inText.path
  obtain ⟨x, hx, rfl, rest, hrest⟩ := on_of_charAt? hch
  have heq := h.slice_eq
  rw [hsource, hgenerated, ha.slice ht, hc.slice hu] at heq
  subst heq
  rw [hsource] at ho
  obtain ⟨hlo, hhi⟩ := Span.contains_iff.mp ho
  have hstart : a.offset = e.source ∧ c.offset = e.generated :=
    ⟨(congrArg Span.start hsource).symm, (congrArg Span.start hgenerated).symm⟩
  obtain ⟨front, hfront⟩ := ha.reaches_of_le hx hlo
  obtain ⟨back, rfl, hback⟩ := hfront.split ht (Nat.le_of_lt hhi)
  obtain ⟨first, back, rfl⟩ := List.exists_cons_of_ne_nil (hback.ne_nil hhi)
  obtain rfl : first = ch := (List.cons.inj (hback.rest.symm.trans hrest)).1
  obtain ⟨hplace, hrest'⟩ := hu.at_length
  have hshift : e.shift x.offset = (c.drop front.length).offset := by
    have := hfront.offset
    have := hplace.offset
    rw [Entry.shift]
    omega
  rw [hshift]
  exact charAt?_offset (hc.reaches hplace.reaches) hrest'.rest

namespace Mapping

variable {m : Mapping}

theorem Faithful.wellFormed (h : m.Faithful source text) : WellFormed m.entries :=
  ⟨h.nonempty, h.ascending, h.disjoint⟩

/-! ## Spans inside an entry and outside of all -/

theorem toSourceSpan_of_within (h : WellFormed m.entries) (he : e ∈ m.entries) (hne : s.start < s.stop)
    (hw : s.Within e.generatedSpan) : m.toSourceSpan s = some (e.part s) := by
  obtain ⟨hlo, hhi⟩ := hw
  simp only [Entry.generatedSpan, Span.ofLength] at hlo hhi
  have hfirst : m.toSource s.start = some (e.source + (s.start - e.generated)) :=
    (toSource_eq_some_iff h).mpr ⟨e, he, _, by omega, rfl, by omega⟩
  have hlast : m.toSource (s.stop - 1) = some (e.source + (s.stop - 1 - e.generated)) :=
    (toSource_eq_some_iff h).mpr ⟨e, he, _, by omega, rfl, by omega⟩
  rw [toSourceSpan, carrySpan, Span.isEmpty, decide_eq_false (by omega), hfirst, hlast]
  simp only [Bool.false_eq_true, if_false, Option.bind_eq_bind, Option.bind_some]
  rw [if_pos (by omega), Entry.part, Option.some.injEq, Span.mk.injEq]
  omega

/-- A byte in no entry has no place in the source. -/
theorem toSource_eq_none (h : WellFormed m.entries) {g : Nat}
    (hg : ∀ e ∈ m.entries, e.generatedSpan.contains g = false) : m.toSource g = none := by
  refine Option.eq_none_iff_forall_ne_some.mpr fun o ho => ?_
  obtain ⟨e, he, i, hi, -, hgi⟩ := (toSource_eq_some_iff h).mp ho
  refine absurd (Span.contains_iff.mpr ?_) (Bool.eq_false_iff.mp (hg e he))
  simp only [Entry.generatedSpan, Span.ofLength]
  omega

theorem toSourceSpan_of_disjoint (h : WellFormed m.entries) (hne : s.start < s.stop)
    (hd : ∀ e ∈ m.entries, e.generatedSpan.Disjoint s) : m.toSourceSpan s = none := by
  have hfirst : m.toSource s.start = none := toSource_eq_none h fun e he =>
    Bool.eq_false_iff.mpr fun hin => hd e he s.start ⟨hin, Span.contains_iff.mpr ⟨Nat.le_refl _, hne⟩⟩
  rw [toSourceSpan, carrySpan, Span.isEmpty, decide_eq_false (by omega), hfirst]
  rfl

/-! ## Bounds -/

/-- The end of an entry's source is in the source. -/
theorem Faithful.source_add_length_le (h : m.Faithful source text) (he : e ∈ m.entries) :
    e.source + e.length ≤ byteLength source := (h.copies e he).inSource.bounded

/-- A mapped byte of the source that starts a character starts the same one in the text. -/
theorem Faithful.charAt? (h : m.Faithful source text) {o g : Nat} (hg : m.toGenerated o = some g) {ch : Char}
    (hch : charAt? source o = some ch) : charAt? text g = some ch := by
  obtain ⟨e, he, hrel⟩ := (toGenerated_eq_some_iff h.wellFormed).mp hg
  have hshift : e.shift o = g := by
    have := Entry.relates_iff.mp hrel
    rw [Entry.shift]
    omega
  rw [← hshift]
  exact (h.copies e he).charAt? hch (Entry.contains_sourceSpan.mpr ⟨g, hrel⟩)

theorem toSource_lt (h : m.Faithful source text) {g o : Nat} (ho : m.toSource g = some o) :
    o < byteLength source := by
  obtain ⟨e, he, i, hi, rfl, -⟩ := (toSource_eq_some_iff h.wellFormed).mp ho
  have := h.source_add_length_le he
  omega

theorem toSourceCursor_le (h : m.Faithful source text) {g o : Nat} (ho : m.toSourceCursor g = some o) :
    o ≤ byteLength source := by
  simp only [toSourceCursor, carry, Option.bind_eq_bind, Option.bind_eq_some_iff] at ho
  obtain ⟨f, hf, ho⟩ := ho
  obtain ⟨hmem, hle⟩ := List.mem_filter.mp (List.mem_of_getLast? hf)
  obtain ⟨e, he, rfl⟩ := List.mem_map.mp hmem
  have := h.source_add_length_le he
  split at ho
  · next hstop =>
    simp only [Bool.or_eq_true, decide_eq_true_eq, Bool.true_and, beq_iff_eq] at hle hstop
    simp only [Entry.shift, Entry.flip, Option.some.injEq] at hle hstop ho
    omega
  · cases ho

theorem inBounds_toSourceSpan (h : m.Faithful source text) {r : Span} (hr : m.toSourceSpan s = some r) :
    r.InBounds source := by
  rw [toSourceSpan, carrySpan] at hr
  split at hr
  · obtain ⟨o, ho, rfl⟩ := Option.map_eq_some_iff.mp hr
    exact ⟨Nat.le_refl o, toSourceCursor_le h ho⟩
  · simp only [Option.bind_eq_bind, Option.bind_eq_some_iff] at hr
    obtain ⟨first, -, last, hlast, hr⟩ := hr
    split at hr
    · cases hr
      exact ⟨by simp only; omega, toSource_lt h hlast⟩
    · cases hr

theorem inBounds_coveredSource (h : m.Faithful source text) (he : e ∈ m.entries) {r : Span}
    (hr : coveredSource s e = some r) : r.InBounds source := by
  have := h.source_add_length_le he
  simp only [coveredSource] at hr
  split at hr
  · cases hr
    exact ⟨by simp only; omega, by simp only; omega⟩
  · cases hr

theorem inBounds_hull {a b : Span} (ha : a.InBounds source) (hb : b.InBounds source) :
    (hull a b).InBounds source := by
  obtain ⟨ha, ha'⟩ := ha
  obtain ⟨hb, hb'⟩ := hb
  exact ⟨by simp only [hull]; omega, by simp only [hull]; omega⟩

theorem inBounds_foldl_hull {first : Span} {rest : List Span} (hfirst : first.InBounds source)
    (hrest : ∀ r ∈ rest, r.InBounds source) : (rest.foldl hull first).InBounds source := by
  induction rest generalizing first with
  | nil => exact hfirst
  | cons r rest ih =>
    obtain ⟨hr, hrest⟩ := List.forall_mem_cons.mp hrest
    exact ih (inBounds_hull hfirst hr) hrest

theorem inBounds_toSourceEnclosing (h : m.Faithful source text) {r : Span}
    (hr : m.toSourceEnclosing s = some r) : r.InBounds source := by
  have hcovered : ∀ r ∈ m.entries.filterMap (coveredSource s), r.InBounds source := by
    intro r hr
    obtain ⟨e, he, hcovered⟩ := List.mem_filterMap.mp hr
    exact inBounds_coveredSource h he hcovered
  rw [toSourceEnclosing] at hr
  split at hr
  · exact inBounds_toSourceSpan h hr
  · split at hr
    · cases hr
    · next first rest heq =>
      cases hr
      rw [heq, List.forall_mem_cons] at hcovered
      exact inBounds_foldl_hull hcovered.1 hcovered.2

/-! ## No entries -/

theorem toSourceSpan_empty (s : Span) : empty.toSourceSpan s = none := by
  rw [toSourceSpan, carrySpan]
  split <;> rfl

theorem toSourceEnclosing_empty (s : Span) : empty.toSourceEnclosing s = none := by
  rw [toSourceEnclosing, toSourceSpan_empty]
  split <;> rfl

theorem toGeneratedCursor_empty (o : Nat) : empty.toGeneratedCursor o = none := by
  simp [toGeneratedCursor, bySource, empty, carry]

end Mapping

end Mdx

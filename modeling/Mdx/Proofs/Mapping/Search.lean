/-
Mappings as they are built and searched. Entries are taken up one by one
(`Draft.push`): an empty one is passed over, one that continues the last is joined
with it, and of the order in the source only one thing is remembered, whether an
entry starts before the one stored ahead of it. The index by source is sorted only
then. The entries and the index are those of the mapping
(`Draft.entries_ofEntries`, `Draft.index_ofEntries`).

A lookup halves the index until one entry is left (`search`). The entries start in
order there, so that entry is the last that starts at the offset or before it
(`search_eq_carry`), the only one that can hold the byte. A cursor may also stand
at its end, and it does not matter where the other entries end: one that ends at
the offset is followed by one that holds it, or it is that last entry
(`carry_cursor_eq_some_iff`).
-/
import Mathlib.Data.List.Induction
import Mdx.Proofs.Mapping

namespace Mdx

/-! ## Halving -/

section Halving

variable {α : Type} {p : α → Bool} {front back : List α}

/-- The place between `lo` and `hi` where `p` ceases to hold in a list, found by halving. -/
def partitionPoint (p : α → Bool) (xs : List α) (lo hi : Nat) : Nat :=
  if lo < hi then
    let mid := lo + (hi - lo) / 2
    if xs[mid]?.any p then partitionPoint p xs (mid + 1) hi else partitionPoint p xs lo mid
  else lo
termination_by hi - lo
decreasing_by all_goals omega

theorem any_getElem?_append (hfront : ∀ a ∈ front, p a = true) (hback : ∀ a ∈ back, p a = false)
    (i : Nat) : (front ++ back)[i]?.any p = decide (i < front.length) := by
  by_cases hi : i < front.length
  · simp [List.getElem?_append_left hi, hi, hfront _ (List.getElem_mem hi)]
  · rw [List.getElem?_append_right (by omega)]
    cases hat : back[i - front.length]? with
    | none => simp [hi]
    | some a => simp [hi, hback a (List.mem_of_getElem? hat)]

/-- Whatever the place in the middle, the one looked for stays between the two ends. -/
theorem partitionPoint_append (hfront : ∀ a ∈ front, p a = true) (hback : ∀ a ∈ back, p a = false)
    {lo hi : Nat} (hlo : lo ≤ front.length) (hhi : front.length ≤ hi) :
    partitionPoint p (front ++ back) lo hi = front.length := by
  fun_induction partitionPoint p (front ++ back) lo hi with
  | case1 lo hi hlt mid hmid ih =>
    rw [any_getElem?_append hfront hback, decide_eq_true_eq] at hmid
    exact ih hmid hhi
  | case2 lo hi hlt mid hmid ih =>
    rw [any_getElem?_append hfront hback, decide_eq_true_eq] at hmid
    exact ih hlo (by omega)
  | case3 lo hi hlt => omega

/-- Where `p` holds of nothing behind one of which it does not hold, it cuts the list in two. -/
theorem exists_partition {xs : List α} (h : xs.Pairwise fun a b => p b = true → p a = true) :
    ∃ front back, xs = front ++ back ∧ (∀ a ∈ front, p a = true) ∧ ∀ a ∈ back, p a = false := by
  induction xs with
  | nil => exact ⟨[], [], rfl, by simp, by simp⟩
  | cons a as ih =>
    obtain ⟨ha, has⟩ := List.pairwise_cons.mp h
    by_cases hp : p a = true
    · obtain ⟨front, back, rfl, hfront, hback⟩ := ih has
      exact ⟨a :: front, back, rfl, List.forall_mem_cons.mpr ⟨hp, hfront⟩, hback⟩
    · refine ⟨[], a :: as, rfl, by simp, List.forall_mem_cons.mpr ⟨by simpa using hp, fun b hb => ?_⟩⟩
      rw [← Bool.not_eq_true]
      exact fun hpb => hp (ha b hb hpb)

theorem takeWhile_eq_filter {xs : List α} (h : xs.Pairwise fun a b => p b = true → p a = true) :
    xs.takeWhile p = xs.filter p := by
  induction xs with
  | nil => rfl
  | cons a as ih =>
    obtain ⟨ha, has⟩ := List.pairwise_cons.mp h
    by_cases hp : p a = true
    · rw [List.takeWhile_cons_of_pos hp, List.filter_cons_of_pos hp, ih has]
    · have hnone : as.filter p = [] := List.filter_eq_nil_iff.mpr fun b hb hpb => hp (ha b hb hpb)
      rw [List.takeWhile_cons_of_neg hp, List.filter_cons_of_neg hp, hnone]

theorem drop_partitionPoint {xs : List α} (h : xs.Pairwise fun a b => p b = true → p a = true) :
    xs.drop (partitionPoint p xs 0 xs.length) = xs.filter (!p ·) := by
  obtain ⟨front, back, rfl, hfront, hback⟩ := exists_partition h
  rw [partitionPoint_append hfront hback (by omega) (by simp), List.drop_left, List.filter_append,
    List.filter_eq_nil_iff.mpr (by simpa using hfront), List.filter_eq_self.mpr (by simpa using hback),
    List.nil_append]

end Halving

namespace Mapping

/-! ## Lookups by halving -/

/-- The one entry that can hold an offset: that before the first which starts behind it. -/
def candidate (entries : List Entry) (offset : Nat) : Option Entry :=
  let next := partitionPoint (fun e : Entry => e.source ≤ offset) entries 0 entries.length
  if next = 0 then none else entries[next - 1]?

/-- The lookup of an offset by halving. -/
def search (cursor : Bool) (entries : List Entry) (offset : Nat) : Option Nat := do
  let e ← candidate entries offset
  let stop := e.source + e.length
  if offset < stop || (cursor && offset == stop) then some (e.shift offset) else none

section Search

variable {es : List Entry}

theorem candidate_eq (h : es.Pairwise fun e f => e.source ≤ f.source) (o : Nat) :
    candidate es o = (es.filter (·.source ≤ o)).getLast? := by
  have hcut : es.Pairwise fun e f => decide (f.source ≤ o) = true → decide (e.source ≤ o) = true := by
    refine h.imp fun hle => ?_
    simp only [decide_eq_true_eq]
    omega
  obtain ⟨front, back, rfl, hfront, hback⟩ := exists_partition hcut
  simp only [decide_eq_true_eq, decide_eq_false_iff_not] at hfront hback
  have hnext : partitionPoint (fun e : Entry => e.source ≤ o) (front ++ back) 0 (front ++ back).length =
      front.length := by
    refine partitionPoint_append (fun e he => ?_) (fun e he => ?_) (by omega) (by simp)
    · simpa using hfront e he
    · simpa using hback e he
  have hfilter : (front ++ back).filter (·.source ≤ o) = front := by
    rw [List.filter_append, List.filter_eq_self.mpr (by simpa using hfront),
      List.filter_eq_nil_iff.mpr (by simpa using hback), List.append_nil]
  rw [hfilter]
  simp only [candidate, hnext]
  by_cases hnil : front.length = 0
  · simp [List.length_eq_zero_iff.mp hnil]
  · rw [if_neg hnil, List.getElem?_append_left (by omega), List.getLast?_eq_getElem?]

/-- Halving finds what a look at every entry finds. -/
theorem search_eq_carry (h : es.Pairwise fun e f => e.source ≤ f.source) (cursor : Bool) (o : Nat) :
    search cursor es o = carry cursor es o := by
  rw [search, candidate_eq h, carry]

end Search

/-! ## Places behind entries -/

section Cursor

variable {es front : List Entry} {last : Entry} {o p : Nat}

theorem carry_of_last (hlast : es.filter (·.source ≤ o) = front ++ [last]) (cursor : Bool) :
    carry cursor es o = if o < last.source + last.length ∨ cursor = true ∧ o = last.source + last.length then
      some (last.shift o) else none := by
  simp [carry, hlast]

/-- An entry ahead of the last one ends where that starts, or before. So if the last one does not hold
the offset, no other ends there. -/
theorem eq_last_of_stop (hne : ∀ e ∈ es, 0 < e.length)
    (h : es.Pairwise fun e f => e.source + e.length ≤ f.source)
    (hlast : es.filter (·.source ≤ o) = front ++ [last]) (hout : ¬ o < last.source + last.length)
    {e : Entry} (he : e ∈ es) (hstop : e.source + e.length = o) : e = last := by
  have hin : e ∈ es.filter (·.source ≤ o) := List.mem_filter.mpr ⟨he, by simp; omega⟩
  have hmem : last ∈ es.filter (·.source ≤ o) := by simp [hlast]
  have hpos := hne last (List.mem_filter.mp hmem).1
  have hordered := h.filter (·.source ≤ o)
  rw [hlast] at hin hordered
  simp only [List.mem_append, List.mem_singleton] at hin
  rcases hin with hin | hin
  · have := (List.pairwise_append.mp hordered).2.2 e hin last (by simp)
    omega
  · exact hin

/-- A cursor finds what a byte finds, and where no byte is found the entry that ends there. -/
theorem carry_cursor_eq_some_iff (hne : ∀ e ∈ es, 0 < e.length)
    (h : es.Pairwise fun e f => e.source + e.length ≤ f.source) :
    carry true es o = some p ↔ carry false es o = some p ∨
      (carry false es o = none ∧ ∃ e ∈ es, o = e.source + e.length ∧ p = e.generated + e.length) := by
  obtain hnil | ⟨front, last, hlast⟩ := List.eq_nil_or_concat (es.filter (·.source ≤ o))
  · have hnone : ∀ cursor, carry cursor es o = none := by simp [carry, hnil]
    simp only [hnone, reduceCtorEq, true_and, false_or, false_iff]
    intro hends
    obtain ⟨e, he, hstop, -⟩ := hends
    have hin : e ∈ es.filter (·.source ≤ o) := List.mem_filter.mpr ⟨he, by simp; omega⟩
    simp [hnil] at hin
  · rw [List.concat_eq_append] at hlast
    have hmem : last ∈ es := (List.mem_filter.mp (hlast ▸ List.mem_concat_self)).1
    by_cases hlt : o < last.source + last.length
    · simp [carry_of_last hlast, hlt]
    have hends := fun {e : Entry} (he : e ∈ es) hstop => eq_last_of_stop hne h hlast hlt (e := e) he hstop
    have hbyte : carry false es o = none := by simp [carry_of_last hlast, hlt]
    simp only [hbyte, reduceCtorEq, true_and, false_or]
    by_cases hstop : o = last.source + last.length
    · have hplace : carry true es o = some (last.generated + last.length) := by
        rw [carry_of_last hlast, if_pos (.inr ⟨rfl, hstop⟩), Entry.shift, Option.some.injEq]
        omega
      rw [hplace, Option.some.injEq]
      constructor
      · intro hp
        exact ⟨last, hmem, hstop, hp.symm⟩
      · intro hex
        obtain ⟨e, he, hstop', hp⟩ := hex
        rw [hp, hends he hstop'.symm]
    · have hplace : carry true es o = none := by simp [carry_of_last hlast, hlt, hstop]
      simp only [hplace, reduceCtorEq, false_iff]
      intro hex
      obtain ⟨e, he, hstop', -⟩ := hex
      rw [hends he hstop'.symm] at hstop'
      exact hstop hstop'

end Cursor

end Mapping

/-! ## Entries taken up one by one -/

/-- Entries that are being taken up: those stored so far, and whether one of them starts in the source
before the one ahead of it. -/
structure Draft where
  entries : List Entry
  unsorted : Bool
  deriving DecidableEq, Repr

namespace Draft

/-- Takes up an entry. -/
def push (d : Draft) (e : Entry) : Draft :=
  if e.length = 0 then d
  else
    match d.entries.getLast? with
    | none => ⟨[e], d.unsorted⟩
    | some last =>
      if last.continuedBy e then
        ⟨d.entries.dropLast ++ [⟨last.source, last.generated, last.length + e.length⟩], d.unsorted⟩
      else ⟨d.entries ++ [e], d.unsorted || e.source < last.source⟩

/-- The draft of entries in the order of the generated text. -/
def ofEntries (entries : List Entry) : Draft := entries.foldl push ⟨[], false⟩

/-- The entries in the order of the source, sorted only if they have to be. -/
def index (d : Draft) : List Entry :=
  if d.unsorted then d.entries.mergeSort fun a b => a.source ≤ b.source else d.entries

end Draft

section Draft

variable {es front : List Entry} {last : Entry}

/-- One more entry is joined with the last of the joined ones or stands behind it. -/
theorem coalesce_concat (h : coalesce es = front ++ [last]) (e : Entry) :
    coalesce (es ++ [e]) = if last.continuedBy e then
      front ++ [⟨last.source, last.generated, last.length + e.length⟩] else front ++ [last, e] := by
  fun_induction coalesce es generalizing front with
  | case1 => simp at h
  | case2 x =>
    obtain ⟨rfl, rfl⟩ : front = [] ∧ last = x := by
      cases front with
      | nil => simpa using h.symm
      | cons y front => simp at h
    simp [coalesce]
  | case3 x y es hcont ih =>
    rw [List.cons_append, List.cons_append, coalesce, if_pos hcont]
    exact ih h
  | case4 x y es hcont ih =>
    obtain ⟨length, rest, heq⟩ := coalesce_cons y es
    cases front with
    | nil => simp [heq] at h
    | cons z front =>
      rw [List.cons_append, List.cons.injEq] at h
      obtain ⟨rfl, hrest⟩ := h
      have := ih hrest
      rw [List.cons_append] at this
      rw [List.cons_append, List.cons_append, coalesce, if_neg hcont, this]
      split <;> rfl

theorem eq_nil_of_coalesce (h : coalesce es = []) : es = [] := by
  cases es with
  | nil => rfl
  | cons e es =>
    obtain ⟨length, rest, heq⟩ := coalesce_cons e es
    rw [heq] at h
    cases h

/-- An entry stands in order behind others that stand in order up to the last one. -/
theorem sources_concat (h : (front ++ [last]).Pairwise fun e f => e.source ≤ f.source) {e : Entry}
    (hle : last.source ≤ e.source) : (front ++ [last] ++ [e]).Pairwise fun e f => e.source ≤ f.source := by
  refine List.pairwise_append.mpr ⟨h, List.pairwise_singleton _ _, fun f hf g hg => ?_⟩
  rw [List.mem_singleton.mp hg]
  rcases List.mem_append.mp hf with hf | hf
  · exact Nat.le_trans ((List.pairwise_append.mp h).2.2 f hf last (by simp)) hle
  · rw [List.mem_singleton.mp hf]
    exact hle

/-- What the draft of some entries is. -/
structure Draft.Holds (d : Draft) (es : List Entry) : Prop where
  entries_eq : d.entries = coalesce (es.filter (0 < ·.length))
  sorted : d.unsorted = false → d.entries.Pairwise fun e f => e.source ≤ f.source

/-- A step of the invariant: only the neighbour ahead is compared, and that is enough, since the others
start before the neighbour. -/
theorem Draft.Holds.push {d : Draft} (h : d.Holds es) (e : Entry) : (d.push e).Holds (es ++ [e]) := by
  by_cases hempty : e.length = 0
  · have hsame : (es ++ [e]).filter (0 < ·.length) = es.filter (0 < ·.length) := by simp [hempty]
    rw [Draft.push, if_pos hempty]
    exact ⟨by rw [hsame, h.entries_eq], h.sorted⟩
  have hmore : (es ++ [e]).filter (0 < ·.length) = es.filter (0 < ·.length) ++ [e] := by
    rw [List.filter_append, List.filter_cons_of_pos (by simp; omega), List.filter_nil]
  rw [Draft.push, if_neg hempty]
  obtain hnil | ⟨front, last, hlast⟩ := List.eq_nil_or_concat d.entries
  · have hnone := eq_nil_of_coalesce (h.entries_eq.symm.trans hnil)
    simp only [hnil, List.getLast?_nil]
    exact ⟨by simp [hmore, hnone, coalesce], by simp⟩
  · rw [List.concat_eq_append] at hlast
    have hconcat := coalesce_concat (h.entries_eq.symm.trans hlast) e
    have hsorted := h.sorted
    rw [hlast] at hsorted
    simp only [hlast, List.getLast?_append, List.getLast?_singleton, Option.some_or, List.dropLast_concat]
    by_cases hcont : last.continuedBy e = true
    · rw [if_pos hcont] at hconcat ⊢
      refine ⟨by rw [hmore, hconcat], fun hflag => ?_⟩
      obtain ⟨hfront, -, hle⟩ := List.pairwise_append.mp (hsorted hflag)
      refine List.pairwise_append.mpr ⟨hfront, List.pairwise_singleton _ _, fun f hf g hg => ?_⟩
      rw [List.mem_singleton.mp hg]
      exact hle f hf last (by simp)
    · rw [if_neg hcont] at hconcat ⊢
      refine ⟨by rw [hmore, hconcat, List.append_assoc]; rfl, fun hflag => ?_⟩
      simp only [Bool.or_eq_false_iff, decide_eq_false_iff_not, Nat.not_lt] at hflag
      exact sources_concat (hsorted hflag.1) hflag.2

theorem Draft.holds_ofEntries (es : List Entry) : (Draft.ofEntries es).Holds es := by
  induction es using List.reverseRecOn with
  | nil => exact ⟨by simp [Draft.ofEntries, coalesce], fun _ => .nil⟩
  | append_singleton es e ih =>
    rw [Draft.ofEntries, List.foldl_append]
    exact ih.push e

theorem Draft.entries_ofEntries (es : List Entry) :
    (Draft.ofEntries es).entries = (Mapping.ofEntries es).entries :=
  (Draft.holds_ofEntries es).entries_eq

/-- If the flag is down there is nothing to sort. -/
theorem Draft.index_ofEntries (es : List Entry) :
    (Draft.ofEntries es).index = (Mapping.ofEntries es).bySource := by
  rw [Mapping.bySource, ← Draft.entries_ofEntries, Draft.index]
  cases hflag : (Draft.ofEntries es).unsorted with
  | true => rfl
  | false =>
    have hsorted := (Draft.holds_ofEntries es).sorted hflag
    exact (List.mergeSort_of_pairwise (hsorted.imp fun hle => by simpa using hle)).symm

end Draft

/-! ## Mappings of entries -/

namespace Mapping

/-- What a mapping of some entries says about their bytes, and that its lookups, by halving the draft of
the entries, find it out. -/
structure Computes (es : List Entry) (m : Mapping) : Prop where
  relates_iff : ∀ s g, Relates m.entries s g ↔ Relates es s g
  toSource_iff : ∀ s g, m.toSource g = some s ↔ Relates es s g
  toGenerated_iff : ∀ s g, m.toGenerated s = some g ↔ Relates es s g
  /-- A cursor goes where the byte behind it goes, and else to the end of the entry that it follows. -/
  toSourceCursor_iff : ∀ s g, m.toSourceCursor g = some s ↔ m.toSource g = some s ∨
    (m.toSource g = none ∧ ∃ e ∈ m.entries, g = e.generated + e.length ∧ s = e.source + e.length)
  toGeneratedCursor_iff : ∀ s g, m.toGeneratedCursor s = some g ↔ m.toGenerated s = some g ∨
    (m.toGenerated s = none ∧ ∃ e ∈ m.entries, s = e.source + e.length ∧ g = e.generated + e.length)
  source_search : ∀ g, m.toSource g = search false ((Draft.ofEntries es).entries.map Entry.flip) g ∧
    m.toSourceCursor g = search true ((Draft.ofEntries es).entries.map Entry.flip) g
  generated_search : ∀ s, m.toGenerated s = search false (Draft.ofEntries es).index s ∧
    m.toGeneratedCursor s = search true (Draft.ofEntries es).index s

section Computes

variable {m : Mapping} {es : List Entry}

theorem toSourceCursor_eq_some_iff (h : WellFormed m.entries) {s g : Nat} :
    m.toSourceCursor g = some s ↔ m.toSource g = some s ∨
      (m.toSource g = none ∧ ∃ e ∈ m.entries, g = e.generated + e.length ∧ s = e.source + e.length) := by
  have hne : ∀ e ∈ m.entries.map Entry.flip, 0 < e.length := List.forall_mem_map.mpr h.nonempty
  rw [toSourceCursor, carry_cursor_eq_some_iff hne (List.pairwise_map.mpr h.ascending)]
  simp [toSource, Entry.flip]

theorem toGeneratedCursor_eq_some_iff (h : WellFormed m.entries) {s g : Nat} :
    m.toGeneratedCursor s = some g ↔ m.toGenerated s = some g ∨
      (m.toGenerated s = none ∧ ∃ e ∈ m.entries, s = e.source + e.length ∧ g = e.generated + e.length) := by
  have hne : ∀ e ∈ m.bySource, 0 < e.length := by simpa [bySource] using h.nonempty
  rw [toGeneratedCursor, carry_cursor_eq_some_iff hne (bySource_pairwise h)]
  simp [toGenerated, bySource]

/-- **Lookups compute the relation of the bytes.** Whatever entries a mapping is made from, if they follow
each other in the generated text and share no byte of the source, the mapping says of each byte what they
say, and the lookups find it in both directions. A cursor behind an entry is at its end in the other text,
unless another entry holds the byte there. -/
theorem ofEntries_computes (hasc : es.Pairwise fun e f => e.generated + e.length ≤ f.generated)
    (hdisjoint : es.Pairwise fun e f => e.sourceSpan.Disjoint f.sourceSpan) : (ofEntries es).Computes es := by
  have hwf := wellFormed_ofEntries hasc hdisjoint
  have hflip : ((ofEntries es).entries.map Entry.flip).Pairwise fun e f => e.source ≤ f.source :=
    List.pairwise_map.mpr (hwf.ascending.imp fun hle => Nat.le_trans (Nat.le_add_right _ _) hle)
  have hindex : (ofEntries es).bySource.Pairwise fun e f => e.source ≤ f.source :=
    (bySource_pairwise hwf).imp fun hle => Nat.le_trans (Nat.le_add_right _ _) hle
  exact
    { relates_iff := fun s g => relates_ofEntries
      toSource_iff := fun s g => (toSource_eq_some_iff hwf).trans relates_ofEntries
      toGenerated_iff := fun s g => (toGenerated_eq_some_iff hwf).trans relates_ofEntries
      toSourceCursor_iff := fun s g => toSourceCursor_eq_some_iff hwf
      toGeneratedCursor_iff := fun s g => toGeneratedCursor_eq_some_iff hwf
      source_search := fun g => by
        rw [Draft.entries_ofEntries, search_eq_carry hflip, search_eq_carry hflip]
        exact ⟨rfl, rfl⟩
      generated_search := fun s => by
        rw [Draft.index_ofEntries, search_eq_carry hindex, search_eq_carry hindex]
        exact ⟨rfl, rfl⟩ }

/-- Entries of which two are joined, one is empty, and the last starts first in the source and ends where
the first starts. -/
theorem ofEntries_computes_unsorted :
    let es : List Entry := [⟨20, 50, 2⟩, ⟨22, 52, 3⟩, ⟨9, 60, 0⟩, ⟨0, 80, 20⟩]
    (es.Pairwise (fun e f => e.generated + e.length ≤ f.generated) ∧
      es.Pairwise fun e f => e.sourceSpan.Disjoint f.sourceSpan) ∧ (ofEntries es).Computes es := by
  intro es
  have hasc : es.Pairwise fun e f => e.generated + e.length ≤ f.generated := by decide
  have hdisjoint : es.Pairwise fun e f => e.sourceSpan.Disjoint f.sourceSpan := by
    simp only [es, List.pairwise_cons, List.forall_mem_cons, Span.Disjoint, Span.contains_iff, Entry.sourceSpan,
      Span.ofLength]
    refine ⟨⟨?_, ?_, ?_, by simp⟩, ⟨?_, ?_, by simp⟩, ⟨?_, by simp⟩, by simp⟩ <;> intro o <;> omega
  exact ⟨⟨hasc, hdisjoint⟩, ofEntries_computes hasc hdisjoint⟩

/-- Where one entry ends and another starts a cursor goes to the start. -/
example : let m := ofEntries [⟨20, 50, 2⟩, ⟨22, 52, 3⟩, ⟨9, 60, 0⟩, ⟨0, 80, 20⟩]
    m.toGeneratedCursor 20 = some 50 ∧ m.toGeneratedCursor 25 = some 55 ∧ m.toSourceCursor 100 = some 20 := by
  cbv

end Computes

end Mapping

end Mdx

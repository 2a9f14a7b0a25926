/-
The spans that cover a set of bytes. Merging keeps the bytes (`contains_iff`),
leaves no empty span and a gap between any two (`separated_merged`), and makes
new spans only out of the ends of old ones (`forall_mem_merged`). A sweep over
two such covers finds a byte that is in both sets, if there is one
(`intersects_iff`). All of it rests on the order of the spans, which sorting
gives to every set that is made from a list.
-/
import Mdx.Proofs.Text.Span
import Mdx.RangeSet

namespace Mdx

theorem Span.isEmpty_eq_false_iff {s : Span} : s.isEmpty = false ↔ s.start < s.stop := by
  simp [isEmpty]

theorem Span.le_iff {a b : Span} :
    a.le b = true ↔ a.start < b.start ∨ (a.start = b.start ∧ a.stop ≤ b.stop) := by
  simp [le]

theorem Span.start_le_of_le {a b : Span} (h : a.le b = true) : a.start ≤ b.start := by
  rcases Span.le_iff.mp h with h | h <;> omega

/-! ## Erasing repetitions -/

section EraseReps

variable {α : Type}

theorem eraseRepsBy_loop_eq (r : α → α → Bool) (a : α) (as acc : List α) :
    List.eraseRepsBy.loop r a as acc = acc.reverse ++ List.eraseRepsBy.loop r a as [] := by
  induction as generalizing a acc with
  | nil => simp [List.eraseRepsBy.loop]
  | cons b as ih =>
    unfold List.eraseRepsBy.loop
    split
    · exact ih a acc
    · rw [ih b (a :: acc), ih b [a]]
      simp

variable [BEq α]

theorem eraseReps_cons_cons (a b : α) (as : List α) : (a :: b :: as).eraseReps =
    if a == b then (a :: as).eraseReps else a :: (b :: as).eraseReps := by
  simp only [List.eraseReps, List.eraseRepsBy]
  rw [List.eraseRepsBy.loop]
  split
  · next h => rw [h]; rfl
  · next h => rw [h, eraseRepsBy_loop_eq]; rfl

theorem eraseReps_sublist (as : List α) : as.eraseReps.Sublist as := by
  match as with
  | [] => exact .slnil
  | [a] => exact .refl _
  | a :: b :: as =>
    rw [eraseReps_cons_cons]
    split
    · exact (eraseReps_sublist (a :: as)).trans ((List.sublist_cons_self b as).cons_cons a)
    · exact (eraseReps_sublist (b :: as)).cons_cons a
termination_by as.length

theorem mem_eraseReps [LawfulBEq α] {x : α} {as : List α} : x ∈ as.eraseReps ↔ x ∈ as := by
  refine ⟨fun h => (eraseReps_sublist as).subset h, fun h => ?_⟩
  match as with
  | [] => exact h
  | [a] => exact h
  | a :: b :: as =>
    rw [eraseReps_cons_cons]
    split
    · next heq =>
      have hab := eq_of_beq heq
      subst hab
      exact mem_eraseReps.mpr (by simpa using h)
    · rcases List.mem_cons.mp h with rfl | h
      · exact List.mem_cons_self
      · exact List.mem_cons_of_mem _ (mem_eraseReps.mpr h)
termination_by as.length

end EraseReps

namespace RangeSet

/-- The spans are in order, as those of every set made from a list. -/
def Sorted (set : RangeSet) : Prop := set.ranges.Pairwise fun a b => a.le b = true

/-- No span is empty, and each stops before the next starts. -/
structure Separated (spans : List Span) : Prop where
  nonempty : ∀ s ∈ spans, s.start < s.stop
  apart : spans.Pairwise fun a b => a.stop < b.start

theorem Separated.tail {s : Span} {spans : List Span} (h : Separated (s :: spans)) : Separated spans :=
  ⟨fun t ht => h.nonempty t (List.mem_cons_of_mem s ht), (List.pairwise_cons.mp h.apart).2⟩

/-- Of two of the spans one stops before the other starts. -/
theorem Separated.eq_or_apart {spans : List Span} (h : Separated spans) {s t : Span} (hs : s ∈ spans)
    (ht : t ∈ spans) : s = t ∨ s.stop < t.start ∨ t.stop < s.start := by
  have hpair : spans.Pairwise fun a b => a = b ∨ a.stop < b.start ∨ b.stop < a.start :=
    h.apart.imp fun hab => .inr (.inl hab)
  have hflip : spans.Pairwise fun a b => b = a ∨ b.stop < a.start ∨ a.stop < b.start :=
    h.apart.imp fun hab => .inr (.inr hab)
  exact hpair.forall_of_forall_of_flip (fun _ _ => .inl rfl) hflip hs ht

/-- The byte at which one of the spans stops is in none of them. -/
theorem Separated.any_stop {spans : List Span} (h : Separated spans) {s : Span} (hs : s ∈ spans) :
    spans.any (·.contains s.stop) = false := by
  refine List.any_eq_false.mpr fun t ht hcontains => ?_
  rw [Span.contains_iff] at hcontains
  have := h.nonempty s hs
  rcases h.eq_or_apart hs ht with rfl | hapart | hapart <;> omega

theorem mem_ranges_ofList {s : Span} {spans : List Span} : s ∈ (ofList spans).ranges ↔ s ∈ spans := by
  simp [ofList, mem_eraseReps]

theorem pairwise_mergeSort_le (spans : List Span) :
    (spans.mergeSort Span.le).Pairwise fun a b => a.le b = true :=
  List.pairwise_mergeSort
    (fun a b c hab hbc => by rw [Span.le_iff] at *; omega)
    (fun a b => by rw [Bool.or_eq_true, Span.le_iff, Span.le_iff]; omega) spans

theorem sorted_ofList (spans : List Span) : (ofList spans).Sorted :=
  (pairwise_mergeSort_le spans).sublist (eraseReps_sublist _)

/-! ## Merging -/

section Merge

variable {last : Span} {spans : List Span}

/-- What merging needs: spans that start in order, from `last` on. -/
def Ascending (last : Span) (spans : List Span) : Prop :=
  (last :: spans).Pairwise fun a b => a.start ≤ b.start

theorem Ascending.skip {s : Span} (h : Ascending last (s :: spans)) (stop : Nat) :
    Ascending ⟨last.start, stop⟩ spans := by
  obtain ⟨hlast, hrest⟩ := List.pairwise_cons.mp h
  refine List.pairwise_cons.mpr ⟨fun t ht => hlast t (by simp [ht]), (List.pairwise_cons.mp hrest).2⟩

theorem Ascending.tail {s : Span} (h : Ascending last (s :: spans)) : Ascending s spans :=
  (List.pairwise_cons.mp h).2

/-- A merged span is `last` or has a start further on. -/
theorem start_le_of_mem_mergeFrom (h : Ascending last spans) : ∀ s ∈ mergeFrom last spans,
    last.start ≤ s.start := by
  induction spans generalizing last with
  | nil => simp [mergeFrom]
  | cons s spans ih =>
    have hle : last.start ≤ s.start := (List.pairwise_cons.mp h).1 s (by simp)
    unfold mergeFrom
    split
    · exact ih (h.skip _)
    · intro t ht
      rcases List.mem_cons.mp ht with rfl | ht
      · exact Nat.le_refl _
      · exact Nat.le_trans hle (ih h.tail t ht)

theorem separated_mergeFrom (h : Ascending last spans) (hlast : last.start < last.stop)
    (hspans : ∀ s ∈ spans, s.start < s.stop) : Separated (mergeFrom last spans) := by
  induction spans generalizing last with
  | nil => exact ⟨by simpa [mergeFrom] using hlast, by simp [mergeFrom]⟩
  | cons s spans ih =>
    have hrest : ∀ t ∈ spans, t.start < t.stop := fun t ht => hspans t (by simp [ht])
    unfold mergeFrom
    split
    · exact ih (h.skip _) (by simp only; omega) hrest
    · next hgap =>
      have hsep := ih h.tail (hspans s (by simp)) hrest
      refine ⟨?_, List.pairwise_cons.mpr ⟨fun t ht => ?_, hsep.apart⟩⟩
      · intro t ht
        rcases List.mem_cons.mp ht with rfl | ht
        · exact hlast
        · exact hsep.nonempty t ht
      · have := start_le_of_mem_mergeFrom h.tail t ht
        omega

/-- Merging keeps the bytes. -/
theorem any_mergeFrom (h : Ascending last spans) (o : Nat) : (mergeFrom last spans).any (·.contains o) =
    (last.contains o || spans.any (·.contains o)) := by
  induction spans generalizing last with
  | nil => simp [mergeFrom]
  | cons s spans ih =>
    unfold mergeFrom
    split
    · next htouch =>
      -- `s` starts in `last` or right behind it, so the two make one span.
      have hle : last.start ≤ s.start := (List.pairwise_cons.mp h).1 s (by simp)
      have hjoin : Span.contains ⟨last.start, max last.stop s.stop⟩ o =
          (last.contains o || s.contains o) := by
        rw [Bool.eq_iff_iff, Bool.or_eq_true]
        simp only [Span.contains_iff]
        omega
      rw [ih (h.skip _), hjoin, List.any_cons, Bool.or_assoc]
    · rw [List.any_cons, ih h.tail, List.any_cons]

/-- What holds of the spans and of two that are joined holds of the merged ones. -/
theorem forall_mem_mergeFrom {P : Span → Prop} (hjoin : ∀ a b, P a → P b → P ⟨a.start, max a.stop b.stop⟩)
    (hlast : P last) (hspans : ∀ s ∈ spans, P s) : ∀ s ∈ mergeFrom last spans, P s := by
  induction spans generalizing last with
  | nil => simpa [mergeFrom] using hlast
  | cons s spans ih =>
    have hs : P s := hspans s (by simp)
    have hrest : ∀ t ∈ spans, P t := fun t ht => hspans t (by simp [ht])
    unfold mergeFrom
    split
    · exact ih (hjoin _ _ hlast hs) hrest
    · intro t ht
      rcases List.mem_cons.mp ht with rfl | ht
      · exact hlast
      · exact ih hs hrest t ht

end Merge

variable {set : RangeSet}

/-- The spans that are merged: those that are not empty, in order. -/
theorem ascending_filter (h : set.Sorted) {last : Span} {spans : List Span}
    (heq : (set.ranges.filter fun s => !s.isEmpty) = last :: spans) : Ascending last spans := by
  have hsub : (last :: spans).Sublist set.ranges := heq ▸ List.filter_sublist
  exact (List.Pairwise.sublist hsub h).imp Span.start_le_of_le

theorem separated_merged (h : set.Sorted) : Separated set.merged := by
  have hne : ∀ s ∈ set.ranges.filter fun s => !s.isEmpty, s.start < s.stop := by
    intro s hs
    simpa [Span.isEmpty_eq_false_iff] using (List.mem_filter.mp hs).2
  unfold merged
  split
  · exact ⟨by simp, .nil⟩
  · next s spans heq =>
    rw [heq] at hne
    exact separated_mergeFrom (ascending_filter h heq) (hne s (by simp)) fun t ht => hne t (by simp [ht])

/-- A byte is in a set if it is in one of its spans. -/
theorem contains_iff (h : set.Sorted) {o : Nat} :
    set.contains o = true ↔ ∃ s ∈ set.ranges, s.contains o = true := by
  have hfilter : (∃ s ∈ set.ranges, s.contains o = true) ↔
      (set.ranges.filter fun s => !s.isEmpty).any (·.contains o) = true := by
    rw [List.any_eq_true]
    refine exists_congr fun s => ?_
    simp only [List.mem_filter, Bool.not_eq_eq_eq_not, Bool.not_true, Span.isEmpty_eq_false_iff,
      Span.contains_iff]
    exact ⟨fun ⟨hs, hle, hlt⟩ => ⟨⟨hs, by omega⟩, hle, hlt⟩, fun ⟨⟨hs, _⟩, hc⟩ => ⟨hs, hc⟩⟩
  rw [hfilter]
  unfold contains merged
  split
  · next heq => simp [heq]
  · next s spans heq => rw [heq, any_mergeFrom (ascending_filter h heq), List.any_cons]

theorem contains_ofList {spans : List Span} {o : Nat} :
    (ofList spans).contains o = true ↔ ∃ s ∈ spans, s.contains o = true := by
  simp only [contains_iff (sorted_ofList spans), mem_ranges_ofList]

theorem sorted_union (a b : RangeSet) : (a.union b).Sorted := sorted_ofList _

theorem mem_ranges_union {a b : RangeSet} {s : Span} :
    s ∈ (a.union b).ranges ↔ s ∈ a.ranges ∨ s ∈ b.ranges := by
  rw [union, mem_ranges_ofList, List.mem_append]

theorem contains_union {a b : RangeSet} (ha : a.Sorted) (hb : b.Sorted) {o : Nat} :
    (a.union b).contains o = true ↔ a.contains o = true ∨ b.contains o = true := by
  rw [contains_iff (sorted_union a b), contains_iff ha, contains_iff hb, ← exists_or]
  refine exists_congr fun s => ?_
  rw [mem_ranges_union, or_and_right]

theorem forall_mem_merged {P : Span → Prop} (hjoin : ∀ a b, P a → P b → P ⟨a.start, max a.stop b.stop⟩)
    (h : ∀ s ∈ set.ranges, P s) : ∀ s ∈ set.merged, P s := by
  have hfilter : ∀ s ∈ set.ranges.filter fun s => !s.isEmpty, P s :=
    fun s hs => h s (List.mem_filter.mp hs).1
  unfold merged
  split
  · simp
  · next s spans heq =>
    rw [heq] at hfilter
    exact forall_mem_mergeFrom hjoin (hfilter s (by simp)) fun t ht => hfilter t (by simp [ht])

theorem merged_pairwise (h : set.Sorted) : set.merged.Pairwise Span.Disjoint :=
  (separated_merged h).apart.imp fun hlt => Span.disjoint_of_le (Nat.le_of_lt hlt)

/-- A byte is in a set if it is in one of the merged spans. -/
theorem exists_merged_iff {o : Nat} :
    (∃ s ∈ set.merged, s.contains o = true) ↔ set.contains o = true := by
  rw [contains, List.any_eq_true]

/-! ## Bytes in common -/

/-- Spans that are not empty share a byte if each starts before the other stops. -/
theorem exists_common_iff {s t : Span} (hs : s.start < s.stop) (ht : t.start < t.stop) :
    (∃ o, s.contains o = true ∧ t.contains o = true) ↔ s.start < t.stop ∧ t.start < s.stop := by
  simp only [Span.contains_iff]
  constructor
  · rintro ⟨o, hso, hto⟩
    omega
  · intro h
    exact ⟨max s.start t.start, by omega, by omega⟩

/-- The sweep over two lists finds a common byte if two of the spans share one. -/
theorem overlap_iff {as bs : List Span} (ha : Separated as) (hb : Separated bs) :
    overlap as bs = true ↔ ∃ s ∈ as, ∃ t ∈ bs, s.start < t.stop ∧ t.start < s.stop := by
  fun_induction overlap as bs with
  | case1 => simp
  | case2 => simp
  | case3 a as b bs hmeet =>
    simp only [Bool.and_eq_true, decide_eq_true_eq] at hmeet
    exact iff_of_true rfl ⟨a, by simp, b, by simp, hmeet⟩
  | case4 a as b bs hmeet hstop ih =>
    simp only [Bool.and_eq_true, decide_eq_true_eq] at hmeet
    rw [ih ha.tail hb]
    constructor
    · rintro ⟨s, hs, hmeets⟩
      exact ⟨s, List.mem_cons_of_mem a hs, hmeets⟩
    · rintro ⟨s, hs, t, ht, hst⟩
      rcases List.mem_cons.mp hs with rfl | hs
      · -- `s` stops before the spans behind `b` start.
        rcases List.mem_cons.mp ht with rfl | ht
        · exact absurd hst hmeet
        · have := (List.pairwise_cons.mp hb.apart).1 t ht
          omega
      · exact ⟨s, hs, t, ht, hst⟩
  | case5 a as b bs hmeet hstop ih =>
    simp only [Bool.and_eq_true, decide_eq_true_eq] at hmeet
    rw [ih ha hb.tail]
    constructor
    · rintro ⟨s, hs, t, ht, hst⟩
      exact ⟨s, hs, t, List.mem_cons_of_mem b ht, hst⟩
    · rintro ⟨s, hs, t, ht, hst⟩
      rcases List.mem_cons.mp ht with rfl | ht
      · rcases List.mem_cons.mp hs with rfl | hs
        · exact absurd hst hmeet
        · have := (List.pairwise_cons.mp ha.apart).1 s hs
          omega
      · exact ⟨s, hs, t, ht, hst⟩

/-- Two sets meet if some byte is in both. -/
theorem intersects_iff {a b : RangeSet} (ha : a.Sorted) (hb : b.Sorted) :
    a.intersects b = true ↔ ∃ o, a.contains o = true ∧ b.contains o = true := by
  have hsa := separated_merged ha
  have hsb := separated_merged hb
  rw [intersects, overlap_iff hsa hsb]
  simp only [← exists_merged_iff]
  constructor
  · rintro ⟨s, hs, t, ht, hst⟩
    obtain ⟨o, hso, hto⟩ := (exists_common_iff (hsa.nonempty s hs) (hsb.nonempty t ht)).mpr hst
    exact ⟨o, ⟨s, hs, hso⟩, t, ht, hto⟩
  · rintro ⟨o, ⟨s, hs, hso⟩, t, ht, hto⟩
    exact ⟨s, hs, t, ht, (exists_common_iff (hsa.nonempty s hs) (hsb.nonempty t ht)).mp ⟨o, hso, hto⟩⟩

/-- Spans that are merged stand between characters if the given ones do. -/
theorem inText_merged {cs : List Char} (h : ∀ s ∈ set.ranges, s.InText cs) :
    ∀ s ∈ set.merged, s.InText cs := by
  refine forall_mem_merged (fun a b ha hb => ?_) h
  have hmax : max a.stop b.stop = a.stop ∨ max a.stop b.stop = b.stop := by omega
  refine ⟨?_, ?_, ha.startsBetween, ?_⟩
  · have := ha.ordered
    simp only
    omega
  · have := ha.bounded
    have := hb.bounded
    simp only
    omega
  · rcases hmax with heq | heq <;> rw [heq]
    · exact ha.stopsBetween
    · exact hb.stopsBetween

end RangeSet

end Mdx

/-
Sets of bytes as values. Sorting and erasing repetitions leave nothing of a list of
spans but its members (`ofList_eq_iff`), so the laws of union are those of
membership. Merging leaves nothing of them but their bytes: spans with gaps between
them are told by their bytes (`Separated.ext`), so the cover of a set is the only
one of its kind.

The gaps are also what a search for a byte needs. It looks at one span, the last
that starts at the byte or before it; the spans before that one stop too early
(`Separated.lookup_eq`).
-/
import Mdx.Proofs.RangeSet

namespace Mdx

theorem Span.eq_of_ends {a b : Span} (hstart : a.start = b.start) (hstop : a.stop = b.stop) : a = b := by
  cases a
  cases b
  exact (Span.mk.injEq ..).mpr ⟨hstart, hstop⟩

theorem Span.le_antisymm {a b : Span} (hab : a.le b = true) (hba : b.le a = true) : a = b := by
  rw [Span.le_iff] at hab hba
  exact Span.eq_of_ends (by omega) (by omega)

/-- In a list in order, what is left without repetitions has no two equal elements. -/
theorem nodup_eraseReps {α : Type} [BEq α] [LawfulBEq α] {le : α → α → Prop}
    (hanti : ∀ a b, le a b → le b a → a = b) {as : List α} (h : as.Pairwise le) : as.eraseReps.Nodup := by
  match as with
  | [] => exact .nil
  | [a] => exact List.pairwise_singleton _ a
  | a :: b :: as =>
    obtain ⟨ha, hrest⟩ := List.pairwise_cons.mp h
    rw [eraseReps_cons_cons]
    split
    · exact nodup_eraseReps hanti (h.sublist ((List.sublist_cons_self b as).cons_cons a))
    · next hne =>
      refine List.nodup_cons.mpr ⟨fun hmem => hne ?_, nodup_eraseReps hanti hrest⟩
      -- A later `a` would be behind `b`, and so equal to it.
      have hba : b = a ∨ le b a := by
        rcases List.mem_cons.mp (mem_eraseReps.mp hmem) with heq | hlater
        · exact .inl heq.symm
        · exact .inr ((List.pairwise_cons.mp hrest).1 a hlater)
      rcases hba with rfl | hba
      · exact beq_self_eq_true b
      · exact beq_iff_eq.mpr (hanti a b (ha b (by simp)) hba)
termination_by as.length

namespace RangeSet

/-! ## Sets made from lists -/

theorem nodup_ofList (spans : List Span) : (ofList spans).ranges.Nodup :=
  nodup_eraseReps (fun _ _ => Span.le_antisymm) (pairwise_mergeSort_le spans)

/-- A set is the same for all lists with the same spans. -/
theorem ofList_eq_iff {as bs : List Span} : ofList as = ofList bs ↔ ∀ s, s ∈ as ↔ s ∈ bs := by
  constructor
  · intro h s
    rw [← mem_ranges_ofList, h, mem_ranges_ofList]
  · intro h
    have hperm : (ofList as).ranges.Perm (ofList bs).ranges := by
      refine (List.perm_ext_iff_of_nodup (nodup_ofList as) (nodup_ofList bs)).mpr fun s => ?_
      rw [mem_ranges_ofList, mem_ranges_ofList, h]
    have heq := hperm.eq_of_pairwise (fun _ _ _ _ => Span.le_antisymm) (sorted_ofList as) (sorted_ofList bs)
    exact congrArg RangeSet.mk heq

theorem union_comm (a b : RangeSet) : a.union b = b.union a :=
  ofList_eq_iff.mpr fun s => by rw [List.mem_append, List.mem_append, or_comm]

theorem union_assoc (a b c : RangeSet) : (a.union b).union c = a.union (b.union c) := by
  refine ofList_eq_iff.mpr fun s => ?_
  rw [List.mem_append, List.mem_append, mem_ranges_union, mem_ranges_union, or_assoc]

theorem union_self (spans : List Span) : (ofList spans).union (ofList spans) = ofList spans :=
  ofList_eq_iff.mpr fun s => by rw [List.mem_append, or_self, mem_ranges_ofList]

/-! ## Covers -/

section Cover

variable {a b : Span} {as bs : List Span} {o : Nat}

theorem Separated.contains_start (h : Separated as) (ha : a ∈ as) : a.contains a.start = true :=
  Span.contains_iff.mpr ⟨Nat.le_refl _, h.nonempty a ha⟩

theorem Separated.start_le (h : Separated (a :: as)) {s : Span} (hs : s ∈ a :: as) : a.start ≤ s.start := by
  rcases List.mem_cons.mp hs with rfl | hs
  · exact Nat.le_refl _
  · have := h.nonempty a (by simp)
    have := (List.pairwise_cons.mp h.apart).1 s hs
    omega

/-- The bytes of the later spans are those that are not in the first. -/
theorem Separated.any_tail (h : Separated (a :: as)) :
    as.any (·.contains o) = ((a :: as).any (·.contains o) && !a.contains o) := by
  rw [List.any_cons]
  cases hfirst : a.contains o with
  | false => simp
  | true =>
    rw [Bool.not_true, Bool.and_false]
    refine List.any_eq_false.mpr fun s hs hcontains => ?_
    have := (List.pairwise_cons.mp h.apart).1 s hs
    rw [Span.contains_iff] at hfirst hcontains
    omega

theorem Separated.start_le_of_covers (ha : Separated (a :: as)) (hb : Separated (b :: bs))
    (h : ∀ o, (a :: as).any (·.contains o) = (b :: bs).any (·.contains o)) : b.start ≤ a.start := by
  have hcovers := h a.start
  rw [List.any_cons, ha.contains_start (by simp), Bool.true_or] at hcovers
  obtain ⟨t, ht, hcontains⟩ := List.any_eq_true.mp hcovers.symm
  exact Nat.le_trans (hb.start_le ht) (Span.contains_iff.mp hcontains).1

theorem Separated.stop_le_of_covers (hb : Separated (b :: bs)) (hstart : a.start = b.start)
    (h : ∀ o, (a :: as).any (·.contains o) = (b :: bs).any (·.contains o)) : a.stop ≤ b.stop := by
  by_cases hle : a.stop ≤ b.stop
  · exact hle
  -- Else the byte at which `b` stops would be in `a`.
  have hlonger : a.contains b.stop = true := by
    have := hb.nonempty b (by simp)
    exact Span.contains_iff.mpr ⟨by omega, by omega⟩
  have hcovers := h b.stop
  rw [hb.any_stop (by simp), List.any_cons, hlonger, Bool.true_or] at hcovers
  cases hcovers

/-- Spans with gaps between them are told by their bytes. -/
theorem Separated.ext (ha : Separated as) (hb : Separated bs)
    (h : ∀ o, as.any (·.contains o) = bs.any (·.contains o)) : as = bs := by
  induction as generalizing bs with
  | nil =>
    cases bs with
    | nil => rfl
    | cons b bs =>
      have hcovers := h b.start
      rw [List.any_nil, List.any_cons, hb.contains_start (by simp), Bool.true_or] at hcovers
      cases hcovers
  | cons a as ih =>
    cases bs with
    | nil =>
      have hcovers := h a.start
      rw [List.any_nil, List.any_cons, ha.contains_start (by simp), Bool.true_or] at hcovers
      cases hcovers
    | cons b bs =>
      have hflip : ∀ o, (b :: bs).any (·.contains o) = (a :: as).any (·.contains o) := fun o => (h o).symm
      have hstart : a.start = b.start :=
        Nat.le_antisymm (hb.start_le_of_covers ha hflip) (ha.start_le_of_covers hb h)
      have hstop : a.stop = b.stop :=
        Nat.le_antisymm (hb.stop_le_of_covers hstart h) (ha.stop_le_of_covers hstart.symm hflip)
      obtain rfl : a = b := Span.eq_of_ends hstart hstop
      rw [ih ha.tail hb.tail fun o => by rw [ha.any_tail, hb.any_tail, h]]

end Cover

/-! ## The search -/

/-- Whether a byte is in the one span that can hold it: the last one before the first that starts behind
the byte. -/
def lookup (spans : List Span) (offset : Nat) : Bool :=
  (spans.takeWhile (·.start ≤ offset)).getLast?.any (offset < ·.stop)

theorem Separated.lookup_eq {spans : List Span} (h : Separated spans) (o : Nat) :
    lookup spans o = spans.any (·.contains o) := by
  induction spans with
  | nil => rfl
  | cons a as ih =>
    have hlater := ih h.tail
    by_cases hstart : a.start ≤ o
    · rw [lookup, List.takeWhile_cons_of_pos (by simpa using hstart), List.getLast?_cons, List.any_cons, ← hlater,
        lookup]
      cases hlast : (as.takeWhile (·.start ≤ o)).getLast? with
      | none => simp [Span.contains, hstart]
      | some s =>
        -- A later span starts before the byte, so `a` has stopped.
        have hs := List.mem_of_getLast? hlast
        have hle : s.start ≤ o := by simpa using List.all_eq_true.mp List.all_takeWhile s hs
        have := (List.pairwise_cons.mp h.apart).1 s ((List.takeWhile_sublist _).subset hs)
        have hstopped : a.contains o = false := by simp [Span.contains]; omega
        rw [hstopped]
        rfl
    · have hnone : (a :: as).any (·.contains o) = false := by
        refine List.any_eq_false.mpr fun s hs hcontains => ?_
        have := h.start_le hs
        rw [Span.contains_iff] at hcontains
        omega
      rw [lookup, List.takeWhile_cons_of_neg (by simpa using hstart), hnone]
      rfl

/-! ## Sets as values -/

/-- What a set made from some spans is: a cover of their bytes that could not be any other. -/
structure Canonical (spans : List Span) (set : RangeSet) : Prop where
  /-- No merged span is empty, they ascend, and there is a byte between any two of them. -/
  separated : Separated set.merged
  contains_iff : ∀ o, set.contains o = true ↔ ∃ r ∈ spans, r.start ≤ o ∧ o < r.stop
  /-- The search for a byte goes to the one span that can hold it. -/
  lookup_eq : ∀ o, lookup set.merged o = set.contains o
  /-- No other spans with gaps between them have the same bytes. -/
  unique : ∀ spans', Separated spans' → (∀ o, spans'.any (·.contains o) = set.contains o) →
    spans' = set.merged

theorem canonical_ofList (spans : List Span) : Canonical spans (ofList spans) where
  separated := separated_merged (sorted_ofList spans)
  contains_iff o := by simp only [contains_ofList, Span.contains_iff]
  lookup_eq o := (separated_merged (sorted_ofList spans)).lookup_eq o
  unique _ h hcovers := h.ext (separated_merged (sorted_ofList spans)) hcovers

/-- **Sets of bytes.** Whatever the spans it is made from, a set is covered by the one list of spans that
has their bytes and gaps between any two. Only which spans there are matters, not their order or how
often each is given. Union is "or" on the bytes, and commutative, associative and idempotent. -/
theorem ofList_lawful (as bs cs : List Span) :
    Canonical as (ofList as) ∧
    (ofList as = ofList bs ↔ ∀ r, r ∈ as ↔ r ∈ bs) ∧
    (∀ o, ((ofList as).union (ofList bs)).contains o = ((ofList as).contains o || (ofList bs).contains o)) ∧
    (ofList as).union (ofList bs) = (ofList bs).union (ofList as) ∧
    ((ofList as).union (ofList bs)).union (ofList cs) = (ofList as).union ((ofList bs).union (ofList cs)) ∧
    (ofList as).union (ofList as) = ofList as := by
  refine ⟨canonical_ofList as, ofList_eq_iff, fun o => ?_, union_comm _ _, union_assoc _ _ _, union_self as⟩
  rw [Bool.eq_iff_iff, Bool.or_eq_true, contains_union (sorted_ofList as) (sorted_ofList bs)]

/-- Spans out of order, twice the same and one whose ends are reversed. -/
example : (ofList [⟨7, 9⟩, ⟨5, 8⟩, ⟨6, 1⟩, ⟨2, 4⟩, ⟨5, 8⟩, ⟨0, 2⟩]).merged = [⟨0, 4⟩, ⟨5, 9⟩] := by
  cbv

/-- **Sets that meet.** The sweep over the covers of two sets finds out whether a byte is in both, and so
it does not matter which of the two is taken first. -/
theorem intersects_iff_common (as bs : List Span) :
    ((ofList as).intersects (ofList bs) = true ↔
      ∃ o, (ofList as).contains o = true ∧ (ofList bs).contains o = true) ∧
    (ofList as).intersects (ofList bs) = (ofList bs).intersects (ofList as) := by
  have hmeet := intersects_iff (sorted_ofList as) (sorted_ofList bs)
  have hflip := intersects_iff (sorted_ofList bs) (sorted_ofList as)
  refine ⟨hmeet, ?_⟩
  rw [Bool.eq_iff_iff, hmeet, hflip]
  exact exists_congr fun o => and_comm

end RangeSet

end Mdx

/-
Answers in the order of their places. The features sort what the views answer by
places alone and so leave answers with equal places in the order in which they
came (`filter_mergeSort`).
-/
import Mdx.Proofs.Mapping

namespace Mdx

variable {α : Type} {le : α → α → Bool}

/-- **Sorting keeps the order of what it holds for equal:** elements with `p` that are all in order with each
other stay as they were. -/
theorem filter_mergeSort (trans : ∀ a b c, le a b = true → le b c = true → le a c = true)
    (total : ∀ a b, (le a b || le b a) = true) {p : α → Bool} (hp : ∀ a b, p a = true → p b = true → le a b = true)
    (l : List α) : (l.mergeSort le).filter p = l.filter p := by
  have hordered : (l.filter p).Pairwise fun a b => le a b = true :=
    List.pairwise_of_forall_mem_list fun a ha b hb => hp a b (List.mem_filter.mp ha).2 (List.mem_filter.mp hb).2
  have hsublist := (List.sublist_mergeSort trans total hordered List.filter_sublist).filter p
  rw [List.filter_filter, funext fun a => Bool.and_self (p a)] at hsublist
  exact (hsublist.eq_of_length ((List.mergeSort_perm l le).filter p).length_eq.symm).symm

/-- Lists of the same elements, the second in the order of a key and with those of one key in the order of
the first. -/
structure StablySorted (key : α → Nat) (found sorted : List α) : Prop where
  ordered : sorted.Pairwise fun a b => key a ≤ key b
  ties : ∀ k, sorted.filter (key · == k) = found.filter (key · == k)

theorem stablySorted_mergeSort (key : α → Nat) (l : List α) :
    StablySorted key l (l.mergeSort fun a b => key a ≤ key b) := by
  have htrans : ∀ a b c, decide (key a ≤ key b) = true → decide (key b ≤ key c) = true →
      decide (key a ≤ key c) = true := by
    intro a b c
    simp only [decide_eq_true_eq]
    exact Nat.le_trans
  have htotal : ∀ a b, (decide (key a ≤ key b) || decide (key b ≤ key a)) = true := by
    intro a b
    simp only [Bool.or_eq_true, decide_eq_true_eq]
    exact Nat.le_total ..
  refine ⟨(List.pairwise_mergeSort htrans htotal l).imp fun h => by simpa using h, fun k => ?_⟩
  refine filter_mergeSort htrans htotal (fun a b ha hb => ?_) l
  rw [beq_iff_eq] at ha hb
  rw [ha, hb]
  exact decide_eq_true (Nat.le_refl k)

end Mdx

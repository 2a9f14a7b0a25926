/-
Lines of a text: the position of any offset, also of one behind the text, is on
one of its lines.
-/
import Mdx.Text.Position

namespace Mdx

/-- Each line feed starts one line, and a position has passed no more of them than there are. -/
theorem line_bytePositionFrom_le (p : Position) (cs : List Char) (n base : Nat) :
    (bytePositionFrom p cs n).line ≤ p.line + (lineStartsFrom base cs).length := by
  induction cs generalizing p n base with
  | nil =>
    cases n <;> simp only [bytePositionFrom] <;> exact Nat.le_add_right _ _
  | cons c cs ih =>
    cases n with
    | zero =>
      simp only [bytePositionFrom]
      exact Nat.le_add_right _ _
    | succ n =>
      have hlater := fun p n => ih p n (base + c.utf8Size)
      simp only [bytePositionFrom, lineStartsFrom]
      split
      · exact Nat.le_add_right _ _
      split
      · have := hlater ⟨p.line + 1, 0⟩ (n + 1 - c.utf8Size)
        rw [List.length_cons]
        simp only at this
        omega
      · exact hlater ⟨p.line, p.column + c.utf8Size⟩ _

theorem line_le_bytePositionFrom (p : Position) (cs : List Char) (n : Nat) :
    p.line ≤ (bytePositionFrom p cs n).line := by
  induction cs generalizing p n with
  | nil => cases n <;> exact Nat.le_refl _
  | cons c cs ih =>
    cases n with
    | zero => exact Nat.le_refl _
    | succ n =>
      simp only [bytePositionFrom]
      split
      · exact Nat.le_refl _
      split
      · exact Nat.le_trans (Nat.le_succ _) (ih ⟨p.line + 1, 0⟩ _)
      · exact ih ⟨p.line, p.column + c.utf8Size⟩ _

theorem line_bytePositionFrom_mono (p : Position) (cs : List Char) {m n : Nat} (h : m ≤ n) :
    (bytePositionFrom p cs m).line ≤ (bytePositionFrom p cs n).line := by
  induction cs generalizing p m n with
  | nil => cases m <;> cases n <;> exact Nat.le_refl _
  | cons c cs ih =>
    obtain ⟨k, rfl⟩ : ∃ k, n = m + k := ⟨n - m, by omega⟩
    by_cases hinside : m < c.utf8Size
    · -- The position before or in the first character is on the first line.
      have hline : (bytePositionFrom p (c :: cs) m).line = p.line := by
        cases m with
        | zero => rfl
        | succ m => simp only [bytePositionFrom, if_pos hinside]
      exact hline ▸ line_le_bytePositionFrom p (c :: cs) (m + k)
    · have hsize := c.utf8Size_pos
      obtain ⟨i, rfl⟩ : ∃ i, m = i + 1 := ⟨m - 1, by omega⟩
      have hlater : ¬ i + k + 1 < c.utf8Size := by omega
      rw [Nat.add_right_comm]
      simp only [bytePositionFrom, if_neg hinside, if_neg hlater]
      split <;> exact ih _ (Nat.sub_le_sub_right (by omega) _)

/-- The line of a later byte is no earlier one. -/
theorem line_bytePosition_mono (cs : List Char) {m n : Nat} (h : m ≤ n) :
    (bytePosition cs m).line ≤ (bytePosition cs n).line := line_bytePositionFrom_mono ⟨0, 0⟩ cs h

theorem line_bytePosition_lt (cs : List Char) (offset : Nat) : (bytePosition cs offset).line < lineCount cs := by
  have := line_bytePositionFrom_le ⟨0, 0⟩ cs offset 0
  simp only [bytePosition, lineCount, lineStarts, List.length_cons] at this ⊢
  omega

end Mdx

/-
Offsets and the positions that editors use stand for each other. A position is
counted up along the text before it (`Position.past`), so an offset between two
characters has the position behind the text up to it, and reading that position
gives the offset back (`positionBytes_past`).

A position that no character stands at is moved to one: to the end of a character
it is inside of, to the end of its line or to the end of the text. Neither
direction ever changes the order of two places.
-/
import Mdx.Proofs.Text.Place
import Mdx.Text.Position

namespace Mdx

open Cursor

namespace Position

/-- The position behind a character that stands at the position. -/
def next (p : Position) (c : Char) : Position :=
  if c = '\n' then ⟨p.line + 1, 0⟩ else ⟨p.line, p.column + utf16Size c⟩

/-- The position behind a text that starts at the position. -/
def past (p : Position) (text : List Char) : Position := text.foldl next p

@[simp] theorem past_nil (p : Position) : p.past [] = p := rfl

@[simp] theorem past_cons (p : Position) (c : Char) (text : List Char) :
    p.past (c :: text) = (p.next c).past text := rfl

theorem past_append (p : Position) (a b : List Char) : p.past (a ++ b) = (p.past a).past b :=
  List.foldl_append

theorem le_iff {p q : Position} : p.le q = true ↔ p.line < q.line ∨ p.line = q.line ∧ p.column ≤ q.column := by
  simp [le]

theorem le_refl (p : Position) : p.le p = true := le_iff.mpr (.inr ⟨rfl, Nat.le_refl _⟩)

theorem le_trans {p q r : Position} (h : p.le q = true) (h' : q.le r = true) : p.le r = true := by
  rw [le_iff] at *
  omega

theorem le_next (p : Position) (c : Char) : p.le (p.next c) = true := by
  rw [le_iff, next]
  split
  · exact .inl (Nat.lt_succ_self _)
  · exact .inr ⟨rfl, Nat.le_add_right _ _⟩

/-- Counting on from a position only adds to it: the column starts anew if a line feed is passed. -/
theorem past_eq (p : Position) (text : List Char) :
    p.past text = if (past ⟨0, 0⟩ text).line = 0 then ⟨p.line, p.column + (past ⟨0, 0⟩ text).column⟩
      else ⟨p.line + (past ⟨0, 0⟩ text).line, (past ⟨0, 0⟩ text).column⟩ := by
  induction text generalizing p with
  | nil => simp
  | cons c text ih =>
    rw [past_cons, past_cons, ih (p.next c), ih (next ⟨0, 0⟩ c)]
    by_cases hc : c = '\n' <;> by_cases hline : (past ⟨0, 0⟩ text).line = 0 <;>
      simp [hc, hline, next, Nat.add_assoc]

/-- Characters that are no line feeds only move the column. -/
theorem past_of_no_feed (p : Position) {text : List Char} (h : ∀ c ∈ text, c ≠ '\n') :
    p.past text = ⟨p.line, p.column + utf16Length text⟩ := by
  induction text generalizing p with
  | nil => rfl
  | cons c text ih =>
    obtain ⟨hc, htext⟩ := List.forall_mem_cons.mp h
    simp only [past_cons, ih _ htext, next, if_neg hc, utf16Length, Nat.add_assoc]

end Position

/-! ## Offsets as positions -/

section Position

variable {cs : List Char}

theorem utf16PositionFrom_zero (p : Position) (cs : List Char) : utf16PositionFrom p cs 0 = p := by
  cases cs <;> rfl

theorem utf16PositionFrom_inside (p : Position) {c : Char} (cs : List Char) {n : Nat}
    (h : n < c.utf8Size) : utf16PositionFrom p (c :: cs) n = p := by
  cases n with
  | zero => rfl
  | succ n =>
    rw [utf16PositionFrom, if_pos h]
    omega

theorem utf16PositionFrom_cons (p : Position) (c : Char) (cs : List Char) (n : Nat) :
    utf16PositionFrom p (c :: cs) (c.utf8Size + n) = utf16PositionFrom (p.next c) cs n := by
  have hpos := c.utf8Size_pos
  obtain ⟨m, hm⟩ : ∃ m, c.utf8Size + n = m + 1 := ⟨c.utf8Size + n - 1, by omega⟩
  have hge : ¬ m + 1 < c.utf8Size := by omega
  have hrest : m + 1 - c.utf8Size = n := by omega
  rw [hm, utf16PositionFrom, if_neg hge, hrest, Position.next]
  · by_cases hc : c = '\n' <;> simp [hc]
  · omega

/-- What is passed over counts up the position. -/
theorem utf16PositionFrom_append (p : Position) (a b : List Char) (n : Nat) :
    utf16PositionFrom p (a ++ b) (byteLength a + n) = utf16PositionFrom (p.past a) b n := by
  induction a generalizing p with
  | nil => simp
  | cons c a ih =>
    rw [List.cons_append, byteLength_cons, Nat.add_assoc, utf16PositionFrom_cons, ih, Position.past_cons]

/-- The position of an offset between two characters is the one behind the text up to it. -/
theorem utf16Position_append (a b : List Char) :
    utf16Position (a ++ b) (byteLength a) = Position.past ⟨0, 0⟩ a := by
  have h := utf16PositionFrom_append ⟨0, 0⟩ a b 0
  rwa [utf16PositionFrom_zero] at h

/-- An offset inside a character stands for the start of the character. -/
theorem utf16Position_inside {o n : Nat} {c : Char} (h : charAt? cs o = some c) (hn : n < c.utf8Size) :
    utf16Position cs (o + n) = utf16Position cs o := by
  obtain ⟨a, b, rfl, rfl⟩ := charAt?_eq_some h
  rw [utf16Position_append, utf16Position, utf16PositionFrom_append, utf16PositionFrom_inside _ _ hn]

theorem le_utf16PositionFrom (p : Position) (cs : List Char) (n : Nat) :
    p.le (utf16PositionFrom p cs n) = true := by
  induction cs generalizing p n with
  | nil => cases n <;> exact p.le_refl
  | cons c cs ih =>
    by_cases hn : n < c.utf8Size
    · rw [utf16PositionFrom_inside p cs hn]
      exact p.le_refl
    · obtain ⟨m, rfl⟩ := Nat.exists_eq_add_of_le (Nat.le_of_not_lt hn)
      rw [utf16PositionFrom_cons]
      exact Position.le_trans (p.le_next c) (ih (p.next c) m)

theorem utf16PositionFrom_mono (p : Position) (cs : List Char) {n m : Nat} (h : n ≤ m) :
    (utf16PositionFrom p cs n).le (utf16PositionFrom p cs m) = true := by
  induction cs generalizing p n m with
  | nil => cases n <;> cases m <;> exact p.le_refl
  | cons c cs ih =>
    by_cases hn : n < c.utf8Size
    · rw [utf16PositionFrom_inside p cs hn]
      exact le_utf16PositionFrom p (c :: cs) m
    · obtain ⟨k, rfl⟩ := Nat.exists_eq_add_of_le (Nat.le_of_not_lt hn)
      obtain ⟨l, rfl⟩ := Nat.exists_eq_add_of_le h
      rw [Nat.add_assoc, utf16PositionFrom_cons, utf16PositionFrom_cons]
      exact ih (p.next c) (Nat.le_add_right k l)

end Position

/-! ## Positions as offsets -/

section Offset

theorem columnBytes_zero (cs : List Char) : columnBytes cs 0 = 0 := by cases cs <;> rfl

theorem columnBytes_succ (c : Char) (cs : List Char) (column : Nat) : columnBytes (c :: cs) (column + 1) =
    if c == '\n' then 0 else c.utf8Size + columnBytes cs (column + 1 - utf16Size c) := rfl

/-- The bytes to a column behind the first character of a line. -/
theorem columnBytes_cons {c : Char} (hc : c ≠ '\n') (cs : List Char) (column : Nat) :
    columnBytes (c :: cs) (utf16Size c + column) = c.utf8Size + columnBytes cs column := by
  have hpos : 0 < utf16Size c := by
    unfold utf16Size
    split <;> omega
  obtain ⟨m, hm⟩ : ∃ m, utf16Size c + column = m + 1 := ⟨utf16Size c + column - 1, by omega⟩
  have hrest : m + 1 - utf16Size c = column := by omega
  rw [hm, columnBytes_succ, hrest]
  simp [hc]

theorem positionBytes_zero (cs : List Char) (column : Nat) :
    positionBytes cs 0 column = columnBytes cs column := by cases cs <;> rfl

/-- The position behind a text leads back to the end of that text. -/
theorem positionBytes_past (a b : List Char) :
    positionBytes (a ++ b) (Position.past ⟨0, 0⟩ a).line (Position.past ⟨0, 0⟩ a).column = byteLength a := by
  induction a with
  | nil => exact (positionBytes_zero b 0).trans (columnBytes_zero b)
  | cons c a ih =>
    rw [Position.past_cons, Position.past_eq, List.cons_append, byteLength_cons, ← ih]
    generalize Position.past ⟨0, 0⟩ a = q
    obtain ⟨line, column⟩ := q
    by_cases hc : c = '\n'
    · -- The line feed starts one line more, and the column is counted from there.
      subst hc
      cases line <;> simp [Position.next, positionBytes, Nat.add_comm]
    · cases line with
      | zero => simp [Position.next, hc, positionBytes_zero, columnBytes_cons]
      | succ line => simp [Position.next, hc, positionBytes]

/-- A position leads to a place between two characters. -/
theorem exists_columnBytes (cs : List Char) (column : Nat) :
    ∃ a b, cs = a ++ b ∧ columnBytes cs column = byteLength a := by
  induction cs generalizing column with
  | nil => exact ⟨[], [], rfl, by cases column <;> rfl⟩
  | cons c cs ih =>
    cases column with
    | zero => exact ⟨[], c :: cs, rfl, rfl⟩
    | succ column =>
      obtain ⟨a, b, hcs, ha⟩ := ih (column + 1 - utf16Size c)
      rw [columnBytes_succ]
      split
      · exact ⟨[], c :: cs, rfl, rfl⟩
      · exact ⟨c :: a, b, by rw [hcs]; rfl, by rw [ha]; rfl⟩

theorem exists_positionBytes (cs : List Char) (line column : Nat) :
    ∃ a b, cs = a ++ b ∧ positionBytes cs line column = byteLength a := by
  induction cs generalizing line with
  | nil => exact ⟨[], [], rfl, by cases line <;> cases column <;> rfl⟩
  | cons c cs ih =>
    cases line with
    | zero => exact positionBytes_zero _ column ▸ exists_columnBytes (c :: cs) column
    | succ line =>
      rw [positionBytes]
      split
      · obtain ⟨a, b, hcs, ha⟩ := ih line
        exact ⟨c :: a, b, by rw [hcs]; rfl, by rw [ha]; rfl⟩
      · obtain ⟨a, b, hcs, ha⟩ := ih (line + 1)
        exact ⟨c :: a, b, by rw [hcs]; rfl, by rw [ha]; rfl⟩

theorem columnBytes_mono (cs : List Char) {m n : Nat} (h : m ≤ n) : columnBytes cs m ≤ columnBytes cs n := by
  induction cs generalizing m n with
  | nil => cases m <;> cases n <;> exact Nat.le_refl _
  | cons c cs ih =>
    cases m with
    | zero => exact Nat.zero_le _
    | succ m =>
      cases n with
      | zero => omega
      | succ n =>
        rw [columnBytes_succ, columnBytes_succ]
        split
        · exact Nat.le_refl _
        · exact Nat.add_le_add_left (ih (Nat.sub_le_sub_right h _)) _

/-- A line ends before the next one starts. -/
theorem columnBytes_le_positionBytes (cs : List Char) (line m n : Nat) :
    columnBytes cs m ≤ positionBytes cs (line + 1) n := by
  induction cs generalizing m with
  | nil => cases m <;> exact Nat.zero_le _
  | cons c cs ih =>
    cases m with
    | zero => exact Nat.zero_le _
    | succ m =>
      rw [columnBytes_succ, positionBytes]
      split
      · exact Nat.zero_le _
      · exact Nat.add_le_add_left (ih _) _

theorem positionBytes_mono (cs : List Char) {p q : Position} (h : p.le q = true) :
    positionBytes cs p.line p.column ≤ positionBytes cs q.line q.column := by
  obtain ⟨line, column⟩ := p
  obtain ⟨line', column'⟩ := q
  rw [Position.le_iff] at h
  dsimp only at h ⊢
  induction cs generalizing line line' with
  | nil => cases line <;> cases line' <;> cases column <;> cases column' <;> exact Nat.le_refl _
  | cons c cs ih =>
    cases line with
    | zero =>
      rw [positionBytes_zero]
      cases line' with
      | zero =>
        rw [positionBytes_zero]
        exact columnBytes_mono _ (by omega)
      | succ line' => exact columnBytes_le_positionBytes _ _ _ _
    | succ line =>
      cases line' with
      | zero => omega
      | succ line' =>
        rw [positionBytes, positionBytes]
        refine Nat.add_le_add_left ?_ _
        split
        · exact ih line line' (by omega)
        · exact ih (line + 1) (line' + 1) (by omega)

end Offset

/-! ## Columns on their lines -/

/-- The column is that of a place on the line: the UTF-16 units of the first characters of the line. -/
def Position.OnLine (cs : List Char) (p : Position) : Prop :=
  ∃ start front, lineStart? cs p.line = some start ∧ front <+: (atOffset cs start).line ∧
    utf16Length front = p.column

/-- A later line starts behind as many line feeds as there are lines before it. -/
theorem past_of_lineStartsFrom {cs : List Char} {base line start : Nat}
    (h : (lineStartsFrom base cs)[line]? = some start) :
    ∃ a b, cs = a ++ b ∧ start = base + byteLength a ∧ ∀ p : Position, p.past a = ⟨p.line + line + 1, 0⟩ := by
  induction cs generalizing base line with
  | nil => simp [lineStartsFrom] at h
  | cons c cs ih =>
    simp only [lineStartsFrom] at h
    by_cases hc : c = '\n'
    · subst hc
      cases line with
      | zero =>
        simp only [beq_self_eq_true, if_true, List.getElem?_cons_zero, Option.some.injEq] at h
        exact ⟨['\n'], cs, rfl, by simp [← h], fun p => by simp [Position.next]⟩
      | succ line =>
        simp only [beq_self_eq_true, if_true, List.getElem?_cons_succ] at h
        obtain ⟨a, b, hcs, hstart, hpast⟩ := ih h
        refine ⟨'\n' :: a, b, by rw [hcs]; rfl, by rw [hstart, byteLength_cons]; omega, fun p => ?_⟩
        rw [Position.past_cons, hpast, Position.next, if_pos rfl, Nat.add_right_comm p.line 1 line]
        rfl
    · have hne : (c == '\n') = false := by simpa using hc
      rw [hne] at h
      obtain ⟨a, b, hcs, hstart, hpast⟩ := ih h
      refine ⟨c :: a, b, by rw [hcs]; rfl, by rw [hstart, byteLength_cons]; omega, fun p => ?_⟩
      rw [Position.past_cons, hpast, Position.next, if_neg hc]

theorem past_of_lineStart? {cs : List Char} {line start : Nat} (h : lineStart? cs line = some start) :
    ∃ a b, cs = a ++ b ∧ start = byteLength a ∧ Position.past ⟨0, 0⟩ a = ⟨line, 0⟩ := by
  cases line with
  | zero =>
    simp only [lineStart?, lineStarts, List.getElem?_cons_zero, Option.some.injEq] at h
    exact ⟨[], cs, rfl, h.symm, rfl⟩
  | succ line =>
    simp only [lineStart?, lineStarts, List.getElem?_cons_succ] at h
    obtain ⟨a, b, hcs, hstart, hpast⟩ := past_of_lineStartsFrom h
    exact ⟨a, b, hcs, by omega, by simpa using hpast ⟨0, 0⟩⟩

/-- A place on a line is a place of the text, and its position is that behind the text before it. -/
theorem Position.OnLine.exists_past {cs : List Char} {p : Position} (h : p.OnLine cs) :
    ∃ a b, cs = a ++ b ∧ p = past ⟨0, 0⟩ a := by
  obtain ⟨start, front, hstart, ⟨tail, hline⟩, hcolumn⟩ := h
  obtain ⟨a, b, rfl, rfl, hpast⟩ := past_of_lineStart? hstart
  have hrest : (atOffset (a ++ b) (byteLength a)).rest = b := dropBytes_append a b
  rw [Cursor.line, hrest] at hline
  have hfeed : ∀ c ∈ front, c ≠ '\n' := by
    intro c hc
    have hmem : c ∈ b.takeWhile (· != '\n') := hline ▸ List.mem_append_left tail hc
    simpa using List.all_eq_true.mp List.all_takeWhile c hmem
  refine ⟨a ++ front, tail ++ b.dropWhile (· != '\n'), ?_, ?_⟩
  · rw [List.append_assoc, ← List.append_assoc front, hline, List.takeWhile_append_dropWhile]
  · rw [past_append, hpast, past_of_no_feed _ hfeed, hcolumn, Nat.zero_add]

/-! ## Offsets and positions -/

/-- Offsets of a text and editor positions stand for each other. -/
structure OffsetsMatchPositions (cs : List Char) : Prop where
  /-- An offset between two characters comes back from its position. -/
  offset_back : ∀ o, isBoundary cs o = true → offsetOfUtf16 cs (utf16Position cs o) = o
  /-- Every position, also one that is not in the text, leads to a place between two characters. -/
  offset_inText : ∀ p, offsetOfUtf16 cs p ≤ byteLength cs ∧ isBoundary cs (offsetOfUtf16 cs p) = true
  /-- A position of a place on a line comes back from its offset. -/
  position_back : ∀ p : Position, p.OnLine cs → utf16Position cs (offsetOfUtf16 cs p) = p
  position_mono : ∀ o o', o ≤ o' → (utf16Position cs o).le (utf16Position cs o') = true
  offset_mono : ∀ p q : Position, p.le q = true → offsetOfUtf16 cs p ≤ offsetOfUtf16 cs q
  /-- An offset inside a character has the position of the character's start. -/
  position_inside : ∀ o c n, charAt? cs o = some c → n < c.utf8Size →
    utf16Position cs (o + n) = utf16Position cs o

/-- **Offsets and positions stand for each other.** An offset between two characters and a position
on a line both come back, every position leads to a place of the text, and the order of places is
the same on both sides. -/
theorem offsets_match_positions (cs : List Char) : OffsetsMatchPositions cs where
  offset_back := by
    intro o ho
    obtain ⟨a, b, rfl, rfl⟩ := isBoundary_iff.mp ho
    rw [utf16Position_append]
    exact positionBytes_past a b
  offset_inText := by
    intro p
    obtain ⟨a, b, hcs, ha⟩ := exists_positionBytes cs p.line p.column
    have hboundary := isBoundary_iff.mpr ⟨a, b, hcs, ha.symm⟩
    exact ⟨isBoundary_le hboundary, hboundary⟩
  position_back := by
    intro p hp
    obtain ⟨a, b, rfl, rfl⟩ := hp.exists_past
    rw [offsetOfUtf16, positionBytes_past, utf16Position_append]
  position_mono := fun _ _ h => utf16PositionFrom_mono ⟨0, 0⟩ cs h
  offset_mono := fun _ _ h => positionBytes_mono cs h
  position_inside := fun _ _ _ h hn => utf16Position_inside h hn

/-- Characters of one, two and four bytes over two lines. The column inside the surrogate pair is no
place on its line and leads to the end of the pair. -/
theorem offsets_match_positions_surrogates :
    let cs := "é😀x\nab".toList
    (isBoundary cs 6 = true ∧ offsetOfUtf16 cs (utf16Position cs 6) = 6) ∧
      (Position.OnLine cs ⟨0, 3⟩ ∧ utf16Position cs (offsetOfUtf16 cs ⟨0, 3⟩) = ⟨0, 3⟩) ∧
      (Position.le ⟨0, 2⟩ ⟨0, 3⟩ = true ∧ offsetOfUtf16 cs ⟨0, 2⟩ ≤ offsetOfUtf16 cs ⟨0, 3⟩) ∧
      (charAt? cs 2 = some '😀' ∧ utf16Position cs 5 = utf16Position cs 2) := by
  intro cs
  have hboundary : isBoundary cs 6 = true := by decide
  have hline : Position.OnLine cs ⟨0, 3⟩ := ⟨0, ['é', '😀'], by decide, by decide, by decide⟩
  have hle : Position.le ⟨0, 2⟩ ⟨0, 3⟩ = true := by decide
  have hchar : charAt? cs 2 = some '😀' := by decide
  have h := offsets_match_positions cs
  exact ⟨⟨hboundary, h.offset_back 6 hboundary⟩, ⟨hline, h.position_back _ hline⟩,
    ⟨hle, h.offset_mono _ _ hle⟩, hchar, h.position_inside 2 '😀' 3 hchar (by decide)⟩

end Mdx

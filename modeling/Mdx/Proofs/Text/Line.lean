/-
Moving a cursor over runs, lines and trailing blanks. Each move is a path, and
what it passes over is known: `path_nextLine_of_blank` and `path_trimmedTo` are
what lets a reader go on behind what it has read without losing a character that
is not blank.

The lines of a text follow from `nextLine` (`lines_of_ne_nil`,
`laterLines_eq`), so statements about them are proved by induction on the text
that is left (`line_induction`).
-/
import Mdx.Proofs.Text.Place

namespace Mdx

/-! ## Trimming -/

theorem trimRightBy_append (p : Char → Bool) (cs : List Char) :
    ∃ tail, cs = trimRightBy p cs ++ tail ∧ ∀ ch ∈ tail, p ch = true := by
  refine ⟨(cs.reverse.takeWhile p).reverse, ?_, ?_⟩
  · rw [trimRightBy, ← List.reverse_append, List.takeWhile_append_dropWhile, List.reverse_reverse]
  · intro ch hch
    have := List.all_eq_true.mp (List.all_takeWhile (p := p) (l := cs.reverse))
    exact this ch (List.mem_reverse.mp hch)

theorem trimRight_append (cs : List Char) :
    ∃ tail, cs = trimRight cs ++ tail ∧ ∀ ch ∈ tail, isBlank ch = true :=
  trimRightBy_append isBlank cs

/-- Only blanks are trimmed. -/
theorem trim_append (cs : List Char) : ∃ front back, cs = front ++ trim cs ++ back ∧
    (∀ ch ∈ front, isBlank ch = true) ∧ ∀ ch ∈ back, isBlank ch = true := by
  obtain ⟨back, hback, hblank⟩ := trimRight_append (trimLeft cs)
  refine ⟨cs.takeWhile isBlank, back, ?_, List.all_eq_true.mp List.all_takeWhile, hblank⟩
  rw [trim, List.append_assoc, ← hback]
  exact List.takeWhile_append_dropWhile.symm

namespace Cursor

variable {c d : Cursor} {t u : List Char}

/-- A path through two texts passes the place between them. -/
theorem Path.at_length (h : c.Path (t ++ u) d) :
    c.Path t (c.drop t.length) ∧ (c.drop t.length).Path u d := by
  have hp : c.Path t (c.drop t.length) := by
    have := path_drop c t.length
    rwa [h.rest, List.append_assoc, List.take_left] at this
  obtain ⟨v, hv, hvp⟩ := hp.split h (by
    rw [hp.offset, h.offset, byteLength_append]
    omega)
  rw [List.append_cancel_left hv]
  exact ⟨hp, hvp⟩

/-- The place behind the text up to `d` without the blanks at its end: only blanks are skipped. -/
theorem path_trimmedTo (h : c.Path t d) : ∃ tail, c.Path (trimRight t) (c.trimmedTo d.offset) ∧
    (c.trimmedTo d.offset).Path tail d ∧ t = trimRight t ++ tail ∧ ∀ ch ∈ tail, isBlank ch = true := by
  obtain ⟨tail, htail, hblank⟩ := trimRight_append t
  rw [htail] at h
  obtain ⟨h₁, h₂⟩ := h.at_length
  rw [trimmedTo, h.upTo, ← htail]
  exact ⟨tail, h₁, h₂, htail, hblank⟩

/-! ## Runs -/

theorem path_skipWhile (c : Cursor) (p : Char → Bool) : c.Path (c.rest.takeWhile p) (c.skipWhile p) := by
  have h := path_drop c (c.rest.takeWhile p).length
  rwa [← List.prefix_iff_eq_take.mp (List.takeWhile_prefix p)] at h

theorem rest_skipWhile (c : Cursor) (p : Char → Bool) : (c.skipWhile p).rest = c.rest.dropWhile p := by
  have h := (path_skipWhile c p).rest
  have hsplit := List.takeWhile_append_dropWhile (p := p) (l := c.rest)
  exact (List.append_cancel_left (hsplit.trans h)).symm

theorem forall_mem_takeWhile {p : Char → Bool} {cs : List Char} : ∀ ch ∈ cs.takeWhile p, p ch = true :=
  List.all_eq_true.mp List.all_takeWhile

theorem path_skipIndent (c : Cursor) : ∃ b, c.Path b c.skipIndent ∧ ∀ ch ∈ b, isBlank ch = true :=
  ⟨_, path_skipWhile c isIndent, fun ch hch => isBlank_of_isIndent (forall_mem_takeWhile ch hch)⟩

/-! ## Line ends -/

theorem path_lineEnd (c : Cursor) : c.Path c.line c.lineEnd := path_skipWhile c _

theorem isLineEnd_iff : c.isLineEnd = true ↔ c.rest = [] ∨ ∃ rest, c.rest = '\n' :: rest := by
  unfold isLineEnd line
  cases c.rest with
  | nil => simp
  | cons ch rest => by_cases h : ch = '\n' <;> simp [h]

theorem isLineEnd_lineEnd (c : Cursor) : c.lineEnd.isLineEnd = true := by
  rw [isLineEnd_iff, lineEnd, rest_skipWhile]
  induction c.rest with
  | nil => simp
  | cons ch rest ih => by_cases h : ch = '\n' <;> simp [h] at ih ⊢; exact ih

theorem lineEnd_of_isLineEnd (h : c.isLineEnd = true) : c.lineEnd = c := by
  have hnil : c.line = [] := List.isEmpty_iff.mp h
  have hp := path_lineEnd c
  rw [hnil] at hp
  exact (hp.drop_length).symm

/-- From all places of a line up to its end this end is the same. -/
theorem lineEnd_eq_of_le (h : c.Reaches d) (hle : d.offset ≤ c.lineEnd.offset) : d.lineEnd = c.lineEnd := by
  obtain ⟨t, ht⟩ := h
  obtain ⟨u, hsplit, hu⟩ := ht.split (path_lineEnd c) hle
  have hnil : c.lineEnd.line = [] := List.isEmpty_iff.mp (isLineEnd_lineEnd c)
  have hline : d.line = u := by
    rw [line, hu.rest, List.takeWhile_append_of_pos]
    · rw [line] at hnil
      rw [hnil, List.append_nil]
    · intro ch hch
      have hmem : ch ∈ c.line := hsplit ▸ List.mem_append_right t hch
      exact forall_mem_takeWhile ch hmem
  have hp := path_lineEnd d
  rw [hline] at hp
  exact hp.drop_length.symm.trans hu.drop_length

theorem nextLine_eq_of_le (h : c.Reaches d) (hle : d.offset ≤ c.lineEnd.offset) :
    d.nextLine = c.nextLine := by
  rw [nextLine, nextLine, lineEnd_eq_of_le h hle]

/-- A place at the end of a line is behind the ends of the lines before it. -/
theorem reaches_lineEnd_of_isLineEnd (h : c.Reaches d) (hd : d.isLineEnd = true) : c.lineEnd.Reaches d := by
  by_cases hle : d.offset ≤ c.lineEnd.offset
  · rw [← lineEnd_eq_of_le h hle, lineEnd_of_isLineEnd hd]
    exact .refl d
  · exact (path_lineEnd c).reaches.of_le h (by omega)

/-- The rest of a line behind its indent. -/
theorem line_eq_indent (c : Cursor) : c.line = c.rest.takeWhile isIndent ++ c.skipIndent.line := by
  have hrest := (path_skipWhile c isIndent).rest
  have hline : c.line = (c.rest.takeWhile isIndent ++ c.skipIndent.rest).takeWhile (· != '\n') := by
    rw [line]
    exact congrArg _ hrest
  rw [hline, List.takeWhile_append_of_pos]
  · rfl
  · intro ch hch
    have hindent := forall_mem_takeWhile ch hch
    simp only [isIndent, Bool.or_eq_true, beq_iff_eq] at hindent
    rcases hindent with rfl | rfl <;> decide

theorem reaches_lineEnd_skipIndent (c : Cursor) : c.skipIndent.Reaches c.lineEnd := by
  have hindent := path_skipWhile c isIndent
  have hline := path_lineEnd c
  rw [line_eq_indent] at hline
  have hle : c.skipIndent.offset ≤ c.lineEnd.offset := by
    rw [hline.offset, byteLength_append]
    have hoffset : c.skipIndent.offset = c.offset + byteLength (c.rest.takeWhile isIndent) := hindent.offset
    omega
  exact hindent.reaches.of_le hline.reaches hle

/-- There is no indent behind an indent. -/
theorem skipIndent_skipIndent (c : Cursor) : c.skipIndent.skipIndent = c.skipIndent := by
  have hnone : c.skipIndent.rest.takeWhile isIndent = [] := by
    rw [skipIndent, rest_skipWhile]
    have hhead := List.head?_dropWhile_not isIndent c.rest
    cases hrest : c.rest.dropWhile isIndent with
    | nil => rfl
    | cons ch rest =>
      rw [hrest] at hhead
      exact List.takeWhile_cons_of_neg (by simpa using hhead)
  have hp := path_skipWhile c.skipIndent isIndent
  rw [hnone] at hp
  exact hp.drop_length.symm

/-- Blanks up to the end of a line leave only blanks on the line. -/
theorem isLineBlank_of_path (h : c.Path t d) (ht : ∀ ch ∈ t, isBlank ch = true)
    (hd : d.isLineEnd = true) : c.isLineBlank = true := by
  have hnil : d.rest.takeWhile (· != '\n') = [] := List.isEmpty_iff.mp hd
  rw [isLineBlank, line, h.rest, List.takeWhile_append, hnil, List.append_nil, List.all_eq_true]
  intro ch hch
  split at hch
  · exact ht ch hch
  · exact ht ch (List.takeWhile_subset _ hch)

theorem isLineBlank_of_indent (h : c.skipIndent.isLineEnd = true) : c.isLineBlank = true := by
  obtain ⟨indent, hindent, hblank⟩ := path_skipIndent c
  exact isLineBlank_of_path hindent hblank h

theorem isLineBlank_of_skipIndent (h : c.skipIndent.isLineBlank = true) : c.isLineBlank = true := by
  rw [isLineBlank, List.all_eq_true] at h ⊢
  rw [line_eq_indent, List.forall_mem_append]
  exact ⟨fun ch hch => isBlank_of_isIndent (forall_mem_takeWhile ch hch), h⟩

theorem path_nextLine_of_lineEnd (h : c.isLineEnd = true) :
    ∃ b, c.Path b (c.drop 1) ∧ ∀ ch ∈ b, isBlank ch = true := by
  refine ⟨_, path_drop c 1, fun ch hch => ?_⟩
  rcases isLineEnd_iff.mp h with hr | ⟨rest, hr⟩
  · simp [hr] at hch
  · simp only [hr, List.take_succ_cons, List.take_zero, List.mem_singleton] at hch
    subst hch
    decide

theorem reaches_nextLine (c : Cursor) : c.Reaches c.nextLine :=
  (path_lineEnd c).reaches.trans (reaches_drop _ 1)

/-- What is left of a blank line, and its line end, are blank. -/
theorem path_nextLine_of_blank (h : c.isLineBlank = true) :
    ∃ b, c.Path b c.nextLine ∧ ∀ ch ∈ b, isBlank ch = true := by
  obtain ⟨b, hb, hblank⟩ := path_nextLine_of_lineEnd (isLineEnd_lineEnd c)
  refine ⟨_, (path_lineEnd c).trans hb, ?_⟩
  rw [List.forall_mem_append]
  exact ⟨List.all_eq_true.mp h, hblank⟩

theorem length_nextLine_lt (h : c.rest ≠ []) : c.nextLine.rest.length < c.rest.length := by
  by_cases he : c.lineEnd.rest = []
  · have hn : c.nextLine.rest = [] := by rw [nextLine, rest_drop, he]; rfl
    rw [hn]
    exact List.length_pos_iff.mpr h
  · have hle := (path_lineEnd c).length_le
    have := List.length_pos_iff.mpr he
    rw [nextLine, rest_drop, List.length_drop]
    omega

/-- The end of the line without the blanks before it. -/
theorem path_trimmedLineEnd (c : Cursor) : ∃ tail, c.Path (trimRight c.line) c.trimmedLineEnd ∧
    c.trimmedLineEnd.Path tail c.lineEnd ∧ ∀ ch ∈ tail, isBlank ch = true := by
  obtain ⟨tail, h₁, h₂, -, hblank⟩ := path_trimmedTo (path_lineEnd c)
  have heq : c.trimmedTo c.lineEnd.offset = c.trimmedLineEnd := by
    rw [trimmedTo, (path_lineEnd c).upTo, trimmedLineEnd]
  rw [heq] at h₁ h₂
  exact ⟨tail, h₁, h₂, hblank⟩

theorem isLineBlank_trimmedLineEnd (c : Cursor) : c.trimmedLineEnd.isLineBlank = true := by
  obtain ⟨tail, -, h, hblank⟩ := path_trimmedLineEnd c
  exact isLineBlank_of_path h hblank (isLineEnd_lineEnd c)

/-! ## The lines of a text -/

theorem nextLine_newline (o : Nat) (rest : List Char) : nextLine ⟨o, '\n' :: rest⟩ = ⟨o + 1, rest⟩ := by
  have hend : lineEnd ⟨o, '\n' :: rest⟩ = ⟨o, '\n' :: rest⟩ := by simp [lineEnd, skipWhile]
  rw [nextLine, hend]
  rfl

theorem nextLine_other {ch : Char} (h : ch ≠ '\n') (o : Nat) (rest : List Char) :
    nextLine ⟨o, ch :: rest⟩ = nextLine ⟨o + ch.utf8Size, rest⟩ := by
  have hend : lineEnd ⟨o, ch :: rest⟩ = lineEnd ⟨o + ch.utf8Size, rest⟩ := by
    simp [lineEnd, skipWhile, h, drop]
  rw [nextLine, nextLine, hend]

theorem lineStartsIn_false (o : Nat) (rest : List Char) :
    lineStartsIn false o rest = (nextLine ⟨o, rest⟩).lines := by
  induction rest generalizing o with
  | nil => rfl
  | cons ch rest ih =>
    by_cases h : ch = '\n'
    · subst h
      rw [nextLine_newline]
      rfl
    · have hne : (ch == '\n') = false := by simpa using h
      rw [nextLine_other h, ← ih]
      simp only [lineStartsIn, hne, Bool.false_eq_true, if_false]

theorem laterLines_eq (c : Cursor) : c.laterLines = c.nextLine.lines := lineStartsIn_false c.offset c.rest

theorem lines_of_nil (h : c.rest = []) : c.lines = [] := by simp [lines, h, lineStartsIn]

theorem lines_of_ne_nil (h : c.rest ≠ []) : c.lines = c :: c.nextLine.lines := by
  obtain ⟨o, rest⟩ := c
  cases rest with
  | nil => exact absurd rfl h
  | cons ch rest =>
    have hlater := lineStartsIn_false o (ch :: rest)
    simp only [lineStartsIn, Bool.false_eq_true, if_false] at hlater
    simp only [lines, lineStartsIn, if_true, hlater]

/-- Induction over the lines of a text. -/
theorem line_induction {motive : Cursor → Prop} (nil : ∀ c, c.rest = [] → motive c)
    (cons : ∀ c, c.rest ≠ [] → motive c.nextLine → motive c) (c : Cursor) : motive c := by
  induction hn : c.rest.length using Nat.strongRecOn generalizing c with
  | ind n ih =>
    by_cases h : c.rest = []
    · exact nil c h
    · have hlt := length_nextLine_lt h
      exact cons c h (ih _ (by omega) _ rfl)

theorem reaches_of_mem_lines {l : Cursor} (h : l ∈ c.lines) : c.Reaches l := by
  induction c using line_induction with
  | nil c hc => rw [lines_of_nil hc] at h; cases h
  | cons c hc ih =>
    rw [lines_of_ne_nil hc, List.mem_cons] at h
    rcases h with rfl | h
    · exact .refl _
    · exact (reaches_nextLine c).trans (ih h)

theorem reaches_of_mem_laterLines {l : Cursor} (h : l ∈ c.laterLines) : c.Reaches l :=
  (reaches_nextLine c).trans (reaches_of_mem_lines (laterLines_eq c ▸ h))

theorem lines_pairwise (c : Cursor) : c.lines.Pairwise Reaches := by
  induction c using line_induction with
  | nil c hc => rw [lines_of_nil hc]; exact .nil
  | cons c hc ih =>
    rw [lines_of_ne_nil hc]
    exact .cons (fun l hl => reaches_of_mem_laterLines (laterLines_eq c ▸ hl)) ih

theorem lines_pairwise_nextLine (c : Cursor) : c.lines.Pairwise fun l l' => l.nextLine.Reaches l' := by
  induction c using line_induction with
  | nil c hnil => rw [lines_of_nil hnil]; exact .nil
  | cons c hne ih =>
    rw [lines_of_ne_nil hne]
    exact .cons (fun l hl => reaches_of_mem_lines hl) ih

theorem rest_ne_nil_of_mem_lines {l : Cursor} (h : l ∈ c.lines) : l.rest ≠ [] := by
  induction c using line_induction with
  | nil c hc => rw [lines_of_nil hc] at h; cases h
  | cons c hc ih =>
    rw [lines_of_ne_nil hc, List.mem_cons] at h
    rcases h with rfl | h
    · exact hc
    · exact ih h

/-- The last of some of the later lines, or the cursor itself, is reached from the cursor and from
each of these lines. -/
theorem reaches_getLast? {l : Cursor} {ls : List Cursor} (h : ls.Sublist c.laterLines)
    (hl : l = c ∨ l ∈ ls) : l.Reaches (ls.getLast?.getD c) := by
  cases hlast : ls.getLast? with
  | none =>
    rw [List.getLast?_eq_none_iff] at hlast
    subst hlast
    simp only [List.not_mem_nil, or_false] at hl
    exact hl ▸ .refl _
  | some last =>
    obtain ⟨front, rfl⟩ := List.getLast?_eq_some_iff.mp hlast
    rcases hl with rfl | hl
    · exact reaches_of_mem_laterLines (h.subset (by simp))
    · rw [List.mem_append, List.mem_singleton] at hl
      rcases hl with hl | rfl
      · have hp := (lines_pairwise c.nextLine).sublist (laterLines_eq c ▸ h)
        exact (List.pairwise_append.mp hp).2.2 l hl last (by simp)
      · exact .refl _

end Cursor

end Mdx

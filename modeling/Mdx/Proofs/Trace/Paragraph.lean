/-
How far a paragraph goes. Lines join it until one interrupts it, so none of the
lines that start in it does (`Joined`), and the line behind it does or the text
ends there. Blanks at its end are no part of it. If they take up whole lines, what
is read next starts on the first of these and is a paragraph without any text
(`paragraphEnd_behind`).
-/
import Mdx.Proofs.Trace.Document

namespace Mdx

open Cursor

/-! ## Lines behind a place -/

namespace Cursor

variable {cs : List Char} {c d line : Cursor}

theorem offset_nextLine_le (c : Cursor) : c.nextLine.offset ≤ c.lineEnd.offset + 1 := by
  rcases isLineEnd_iff.mp (isLineEnd_lineEnd c) with hnil | ⟨rest, hrest⟩
  · have hsame : c.nextLine = c.lineEnd := by
      rw [nextLine, drop]
      simp [hnil]
    rw [hsame]
    omega
  · have hoffset : c.nextLine.offset = c.lineEnd.offset + 1 := (path_cons hrest).offset
    omega

/-- A place behind the end of a line is on a line below it. -/
theorem reaches_nextLine_of_lt (h : c.Reaches d) (hlt : c.lineEnd.offset < d.offset) :
    c.nextLine.Reaches d := by
  have hle := offset_nextLine_le c
  exact (reaches_nextLine c).of_le h (by omega)

theorem nextLine_le (h : c.Reaches d) : c.nextLine.offset ≤ d.nextLine.offset := by
  by_cases hle : d.offset ≤ c.lineEnd.offset
  · exact Nat.le_of_eq (by rw [nextLine_eq_of_le h hle])
  · exact ((reaches_nextLine_of_lt h (by omega)).trans (reaches_nextLine d)).le

theorem lt_nextLine (h : c.nextLine.rest ≠ []) : c.offset < c.nextLine.offset := by
  have hne := (reaches_nextLine c).rest_ne_nil h
  exact ((reaches_nextLine c).before_of_length (length_nextLine_lt hne)).lt

/-- A line that starts behind a place starts behind the end of the line there. -/
theorem IsLine.lineEnd_lt (h : line.IsLine cs) (hc : c.On cs) (hlt : c.offset < line.offset) :
    c.lineEnd.offset < line.offset := by
  have hfeed : precededBy cs line.offset '\n' = true := by
    rcases h.start with hzero | hfeed
    · omega
    · exact hfeed
  simp only [precededBy, Bool.and_eq_true, decide_eq_true_eq, beq_iff_eq] at hfeed
  obtain ⟨x, hx, hoffset, rest, hrest⟩ := on_of_charAt? hfeed.2
  have hreach := hc.reaches_of_le hx (by omega)
  have hend := reaches_lineEnd_of_isLineEnd hreach (isLineEnd_iff.mpr (.inr ⟨rest, hrest⟩))
  have hle := hend.le
  omega

theorem IsLine.reaches_of_lt (h : line.IsLine cs) (hc : c.On cs) (hlt : c.offset < line.offset) :
    c.nextLine.Reaches line :=
  reaches_nextLine_of_lt (hc.reaches_of_le h.on (Nat.le_of_lt hlt)) (h.lineEnd_lt hc hlt)

end Cursor

/-! ## Lines that join -/

section Lines

variable {cs : List Char} {math : Bool} {container : Option Tag} {c d : Cursor}

/-- Where the text ends no line joins. -/
theorem interrupts_of_nil (h : c.rest = []) : interrupts math container c = true := by
  have hend : c.skipIndent.isLineEnd = true := by
    rw [isLineEnd_iff, skipIndent, rest_skipWhile, h]
    exact .inl rfl
  simp [interrupts, hend]

theorem paragraphLast_of_interrupts (h : interrupts math container c.nextLine = true) :
    paragraphLast math container c = c := by
  rw [paragraphLast, laterLines_eq]
  by_cases hnil : c.nextLine.rest = []
  · simp [lines_of_nil hnil]
  · rw [lines_of_ne_nil hnil, List.takeWhile_cons_of_neg (by simp [h])]
    rfl

theorem paragraphLast_of_joins (h : interrupts math container c.nextLine = false) :
    paragraphLast math container c = paragraphLast math container c.nextLine := by
  have hne : c.nextLine.rest ≠ [] := by
    intro hnil
    rw [interrupts_of_nil hnil] at h
    cases h
  rw [paragraphLast, laterLines_eq, lines_of_ne_nil hne, List.takeWhile_cons_of_pos (by simp [h]),
    List.getLast?_cons, Option.getD_some, ← laterLines_eq]
  rfl

/-- Induction over the lines that join a paragraph. -/
theorem paragraph_induction (math : Bool) (container : Option Tag) {motive : Cursor → Prop}
    (last : ∀ c, interrupts math container c.nextLine = true → motive c)
    (joins : ∀ c, interrupts math container c.nextLine = false → motive c.nextLine → motive c)
    (c : Cursor) : motive c := by
  induction c using line_induction with
  | nil c hnil =>
    have hnext : c.nextLine.rest = [] := by
      have hle := (reaches_nextLine c).length_le
      rw [hnil, List.length_nil] at hle
      exact List.length_eq_zero_iff.mp (by omega)
    exact last c (interrupts_of_nil hnext)
  | cons c _ ih =>
    cases hends : interrupts math container c.nextLine with
    | true => exact last c hends
    | false => exact joins c hends ih

/-- The line behind the last one of a paragraph interrupts it. -/
theorem interrupts_paragraphLast (math : Bool) (container : Option Tag) (c : Cursor) :
    interrupts math container (paragraphLast math container c).nextLine = true := by
  induction c using paragraph_induction math container with
  | last c hends => rwa [paragraphLast_of_interrupts hends]
  | joins c hjoins ih => rwa [paragraphLast_of_joins hjoins]

/-- A paragraph read from a place further on ends on the same line. -/
theorem lineEnd_paragraphLast (h : c.Reaches d)
    (hle : d.offset ≤ (paragraphLast math container c).lineEnd.offset) :
    (paragraphLast math container d).lineEnd = (paragraphLast math container c).lineEnd := by
  induction c using paragraph_induction math container with
  | last c hends =>
    rw [paragraphLast_of_interrupts hends] at hle ⊢
    rw [← nextLine_eq_of_le h hle] at hends
    rw [paragraphLast_of_interrupts hends, lineEnd_eq_of_le h hle]
  | joins c hjoins ih =>
    rw [paragraphLast_of_joins hjoins] at hle ⊢
    by_cases hline : d.offset ≤ c.lineEnd.offset
    · rw [← nextLine_eq_of_le h hline] at hjoins ⊢
      rw [paragraphLast_of_joins hjoins]
    · exact ih (reaches_nextLine_of_lt h (by omega)) hle

/-- No line that starts behind `c`, and not behind `stop`, interrupts a paragraph. -/
def Joined (cs : List Char) (math : Bool) (container : Option Tag) (c stop : Cursor) : Prop :=
  ∀ line : Cursor, line.IsLine cs → c.offset < line.offset → line.offset ≤ stop.offset →
    interrupts math container line = false

theorem joined_paragraphLast (hc : c.On cs) :
    Joined cs math container c (paragraphLast math container c).lineEnd := by
  induction c using paragraph_induction math container with
  | last c hends =>
    rw [paragraphLast_of_interrupts hends]
    intro line hline hlt hle
    have := hline.lineEnd_lt hc hlt
    omega
  | joins c hjoins ih =>
    rw [paragraphLast_of_joins hjoins]
    intro line hline hlt hle
    have hreach := hline.reaches_of_lt hc hlt
    by_cases hfirst : c.nextLine.offset = line.offset
    · rw [← Reaches.eq_of_offset_eq (.refl _) hreach hfirst]
      exact hjoins
    · have hbehind := hreach.le
      exact ih (hc.reaches (reaches_nextLine c)) line hline (by omega) hle

/-- The end of a paragraph, and the blanks between it and the end of the last line. -/
theorem path_paragraphEnd (math : Bool) (container : Option Tag) (c : Cursor) :
    c.Reaches (paragraphEnd math container c) ∧ ∃ gap, (∀ ch ∈ gap, isBlank ch = true) ∧
      (paragraphEnd math container c).Path gap (paragraphLast math container c).lineEnd := by
  obtain ⟨t, ht⟩ := (reaches_paragraphLast math container c).trans (path_lineEnd _).reaches
  obtain ⟨tail, htext, htail, -, hblank⟩ := path_trimmedTo ht
  exact ⟨htext.reaches, tail, hblank, htail⟩

theorem joined_paragraphEnd (hc : c.On cs) :
    Joined cs math container c (paragraphEnd math container c) := by
  obtain ⟨-, gap, -, hgap⟩ := path_paragraphEnd math container c
  intro line hline hlt hle
  exact joined_paragraphLast hc line hline hlt (Nat.le_trans hle hgap.le)

theorem Joined.mono {stop : Cursor} (h : Joined cs math container c stop) (hle : c.offset ≤ d.offset) :
    Joined cs math container d stop :=
  fun line hline hlt hstop => h line hline (by omega) hstop

/-- Behind a construct that was read, the lines join to the end of the content, which may have moved. -/
theorem Joined.reach {next stop stop' : Cursor} (h : Joined cs math container c stop) (hc : c.On cs)
    (hnext : c.Reaches next) (hreach : Scope.reach math (.paragraph container) c next stop = .ok stop') :
    Joined cs math container next stop' := by
  simp only [Scope.reach] at hreach
  split at hreach
  · cases hreach
    exact h.mono hnext.le
  · cases hreach
    exact joined_paragraphEnd (hc.reaches hnext)

end Lines

/-! ## What is read behind a paragraph -/

theorem trimRight_of_blank {cs : List Char} (h : ∀ ch ∈ cs, isBlank ch = true) : trimRight cs = [] := by
  obtain ⟨tail, htail, -⟩ := trimRight_append cs
  cases hlast : (trimRight cs).getLast? with
  | none => exact List.getLast?_eq_none_iff.mp hlast
  | some ch =>
    have hmem : ch ∈ cs := htail ▸ List.mem_append_left tail (List.mem_of_getLast? hlast)
    have hshows := getLast?_trimRight hlast
    rw [h ch hmem] at hshows
    cases hshows

/-- Where only blanks are left of a paragraph's lines it has no text. -/
theorem paragraphEnd_eq_self {math : Bool} {container : Option Tag} {c : Cursor} {gap : List Char}
    (hgap : c.Path gap (paragraphLast math container c).lineEnd) (hblank : ∀ ch ∈ gap, isBlank ch = true) :
    paragraphEnd math container c = c := by
  obtain ⟨_, htext, -, -, -⟩ := path_trimmedTo hgap
  rw [trimRight_of_blank hblank] at htext
  rw [paragraphEnd]
  exact htext.drop_length.symm

/-- Behind the end of a paragraph a line interrupts it, or only blanks are left of its lines, and a
paragraph that starts there has no text. -/
theorem paragraphEnd_behind {math : Bool} {container : Option Tag} {stop : Cursor}
    (h : stop.EndsParagraph math container) (hjoins : interrupts math container stop.nextLine = false) :
    paragraphEnd math container stop.nextLine.skipIndent = stop.nextLine.skipIndent := by
  obtain ⟨c, rfl⟩ := h
  obtain ⟨hstart, gap, hblank, hgap⟩ := path_paragraphEnd math container c
  have hend := isLineEnd_lineEnd (paragraphLast math container c)
  have hlast := reaches_lineEnd_of_isLineEnd hgap.reaches hend
  by_cases hlt :
    (paragraphEnd math container c).lineEnd.offset < (paragraphLast math container c).lineEnd.offset
  · -- Another line joins behind the one on which the text ends.
    have hnext := reaches_nextLine_of_lt hgap.reaches hlt
    have hrest := (reaches_lineEnd_skipIndent _).trans (reaches_lineEnd_of_isLineEnd hnext hend)
    have hbehind := (reaches_nextLine (paragraphEnd math container c)).trans (reaches_skipIndent _)
    obtain ⟨t, ht⟩ := hbehind
    obtain ⟨left, rfl, hleft⟩ := ht.split hgap hrest.le
    rw [← lineEnd_paragraphLast (hstart.trans ht.reaches) hrest.le] at hleft
    exact paragraphEnd_eq_self hleft fun ch hch => hblank ch (List.mem_append_right t hch)
  · -- The text ends on the last line, and the line behind it interrupts.
    have hle := hlast.le
    have hsame := Reaches.eq_of_offset_eq (.refl _) hlast (by omega)
    have hends := interrupts_paragraphLast math container c
    rw [nextLine, ← hsame] at hends
    rw [nextLine, hends] at hjoins
    cases hjoins

end Mdx

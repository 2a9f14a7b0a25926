/-
The indent that the lines of a content share. Every line that starts in a content
and is not blank has at least as much (`baseIndent_le_indentOf`). A line at which
the content starts has its first column there, so the base is nought; a later
line is among those that the base is the least of. Of these the last may be cut
where the content stops, and keeps its indent, since behind a content only blanks
are left on the line.
-/
import Mdx.Proofs.Tree.Content
import Mdx.Proofs.View.Line

namespace Mdx

open Cursor

/-- Before a place behind a line feed the feed stands. -/
theorem Cursor.On.exists_feed {source : List Char} {c : Cursor} (hc : c.On source)
    (h : precededBy source c.offset '\n' = true) : ∃ x : Cursor, x.On source ∧ x.Path ['\n'] c := by
  simp only [precededBy, Bool.and_eq_true, decide_eq_true_eq, beq_iff_eq] at h
  obtain ⟨x, hx, hoffset, rest, hrest⟩ := on_of_charAt? h.2
  have hfeed := path_cons hrest
  have hnext : (x.drop 1).offset = x.offset + 1 := hfeed.offset
  have hsame : x.drop 1 = c := (hx.reaches hfeed.reaches).eq_of_offset_eq hc (by omega)
  exact ⟨x, hx, hsame ▸ hfeed⟩

namespace Prose

/-! ## The lines of a text -/

theorem splitLines_of_notMem {t : List Char} (h : '\n' ∉ t) : splitLines t = [t] := by
  cases hlines : splitLines t with
  | nil => exact absurd hlines (splitLines_ne_nil t)
  | cons line lines =>
    rcases splitLines_eq_cons hlines with ⟨rfl, rfl⟩ | ⟨-, rest, rfl, -⟩
    · rfl
    · simp at h

/-- A line feed parts the lines before it from those behind it. -/
theorem splitLines_append_feed (a b : List Char) : splitLines (a ++ '\n' :: b) = splitLines a ++ splitLines b := by
  induction a with
  | nil => simp [splitLines]
  | cons c a ih =>
    rw [List.cons_append, splitLines, splitLines, ih]
    split
    · rfl
    · cases hlines : splitLines a with
      | nil => exact absurd hlines (splitLines_ne_nil a)
      | cons line lines => rfl

theorem length_splitLines (cs : List Char) : (splitLines cs).length = cs.count '\n' + 1 := by
  induction cs with
  | nil => rfl
  | cons c cs ih =>
    rw [splitLines]
    split
    · next hc => simp [ih, beq_iff_eq.mp hc]
    · next hc =>
      have hcount : (c :: cs).count '\n' = cs.count '\n' := List.count_cons_of_ne (by simpa using hc)
      cases hlines : splitLines cs with
      | nil => exact absurd hlines (splitLines_ne_nil cs)
      | cons line lines =>
        rw [hcount, ← ih, hlines]
        rfl

/-- The line between whole lines and a line feed, or the end of the text, is told by the line feeds
before it. -/
theorem getElem?_splitLines {a t b : List Char} (ha : a = [] ∨ a.getLast? = some '\n') (ht : '\n' ∉ t)
    (hb : b = [] ∨ b.head? = some '\n') : (splitLines (a ++ t ++ b))[a.count '\n']? = some t := by
  have hfirst : (splitLines (t ++ b))[0]? = some t := by
    rcases hb with rfl | hb
    · rw [List.append_nil, splitLines_of_notMem ht]
      rfl
    · obtain ⟨b, rfl⟩ := List.head?_eq_some_iff.mp hb
      rw [splitLines_append_feed, splitLines_of_notMem ht]
      rfl
  rcases ha with rfl | ha
  · exact hfirst
  · obtain ⟨front, rfl⟩ := List.getLast?_eq_some_iff.mp ha
    have hlength : (front ++ ['\n']).count '\n' = (splitLines front).length + 0 := by
      simp [length_splitLines]
    rw [List.append_assoc, List.append_assoc, List.singleton_append, splitLines_append_feed, hlength,
      List.getElem?_append_right (by omega), Nat.add_sub_cancel_left]
    exact hfirst

/-! ## Indents -/

theorem indentOf_append {front rest : List Char} (hfront : ∀ ch ∈ front, isIndent ch = true)
    (hrest : ∀ ch, rest.head? = some ch → isIndent ch = false) : indentOf (front ++ rest) = front.length := by
  rw [indentOf, List.takeWhile_append_of_pos hfront]
  cases rest with
  | nil => simp
  | cons ch rest => simp [hrest ch rfl]

/-- Behind the indent of a text there is none. -/
theorem head?_dropIndent (cs : List Char) :
    ∀ ch, (cs.dropWhile isIndent).head? = some ch → isIndent ch = false := by
  intro ch hch
  have := List.head?_dropWhile_not isIndent cs
  rw [hch] at this
  simpa using this

/-- What is behind a character that is no indent does not change the indent. -/
theorem indentOf_append_of_shows {t rest : List Char} (h : ¬ t.all isBlank = true) :
    indentOf (t ++ rest) = indentOf t := by
  have hsplit := List.takeWhile_append_dropWhile (p := isIndent) (l := t)
  have hne : t.dropWhile isIndent ≠ [] := by
    intro hnil
    rw [hnil, List.append_nil] at hsplit
    refine h (List.all_eq_true.mpr fun ch hch => isBlank_of_isIndent ?_)
    exact forall_mem_takeWhile ch (hsplit.symm ▸ hch)
  obtain ⟨ch, later, hlater⟩ := List.exists_cons_of_ne_nil hne
  have hch := head?_dropIndent t ch (by rw [hlater, List.head?_cons])
  have hwhole : t ++ rest = t.takeWhile isIndent ++ (ch :: later ++ rest) := by
    rw [← List.append_assoc, ← hlater, hsplit]
  rw [hwhole, indentOf_append forall_mem_takeWhile (by simpa using hch)]
  rfl

/-- The least of the indents known is at most each of them. -/
theorem foldl_leastIndent_le {indents : List Nat} {known : Option Nat} {i : Nat}
    (h : i ∈ known.toList ++ indents) : (indents.foldl leastIndent known).getD 0 ≤ i := by
  induction indents generalizing known i with
  | nil =>
    rw [List.append_nil, Option.mem_toList] at h
    rw [List.foldl_nil, h]
    exact Nat.le_refl i
  | cons x indents ih =>
    rw [List.mem_append, List.mem_cons, ← or_assoc] at h
    rcases h with h | h
    · have hle : known.elim x (min · x) ≤ i := by
        rcases h with h | rfl
        · rw [Option.mem_toList.mp h]
          exact Nat.min_le_left _ _
        · cases known with
          | none => exact Nat.le_refl _
          | some k => exact Nat.min_le_right _ _
      exact Nat.le_trans (ih (List.mem_append_left _ (by simp [leastIndent]))) hle
    · exact ih (List.mem_append_right _ h)

/-! ## Lines in a content -/

variable {source : List Char} {line p y : Cursor} {s : Span}

/-- A content that starts with a line has no base. -/
theorem baseIndent_eq_zero (hline : line.IsLine source) (h : s.start = line.offset) :
    baseIndent source s = 0 := by
  have hlead : ((takeBytes source s.start).reverse.takeWhile (· != '\n')).reverse = [] := by
    rw [h]
    rcases hline.start with hzero | hfeed
    · rw [hzero]
      simp
    · obtain ⟨x, ⟨before, hbefore⟩, hx⟩ := hline.on.exists_feed hfeed
      have htake : takeBytes source line.offset = before ++ ['\n'] := by
        simpa [upTo, ofText] using (hbefore.trans hx).upTo
      simp [htake]
  refine Nat.le_zero.mp (foldl_leastIndent_le (List.mem_append_left _ ?_))
  rw [hlead]
  simp

/-- The later lines of a content that are not blank have at least its base. -/
theorem baseIndent_le {u v w : List Char} (hslice : slice source s = u ++ '\n' :: v) (hw : w ∈ splitLines v)
    (hblank : ¬ w.all isBlank = true) : baseIndent source s ≤ indentOf w := by
  have hlater : w ∈ (splitLines (slice source s)).drop 1 := by
    obtain ⟨first, others, hlines⟩ := List.exists_cons_of_ne_nil (splitLines_ne_nil u)
    rw [hslice, splitLines_append_feed, hlines]
    exact List.mem_append_right _ hw
  refine foldl_leastIndent_le (List.mem_append_right _ (List.mem_map.mpr ⟨w, ?_, rfl⟩))
  exact List.mem_filter.mpr ⟨hlater, by simpa using hblank⟩

/-- The line of a content that starts at a place of it: if the content stops on it, nothing but blanks is
left of it there. -/
theorem exists_splitLines {v : List Char} (hline : line.On source) (hv : line.Path v y)
    (hlt : line.offset < y.offset) (hstops : y.StopsLine source) :
    ∃ w ∈ splitLines v, ∃ rest, line.line = w ++ rest ∧ ∀ ch ∈ rest, isBlank ch = true := by
  cases hlines : splitLines v with
  | nil => exact absurd hlines (splitLines_ne_nil v)
  | cons w ws =>
    refine ⟨w, List.mem_cons_self, ?_⟩
    have hfeed := notMem_of_splitLines hlines
    rcases splitLines_eq_cons hlines with ⟨rfl, -⟩ | ⟨-, later, rfl, -⟩
    · have hwhole : line.line = v ++ y.line := by
        rw [Cursor.line, hv.rest, List.takeWhile_append_of_pos]
        · rfl
        · intro ch hch
          exact bne_iff_ne.mpr fun heq => hfeed (heq ▸ hch)
      refine ⟨y.line, hwhole, ?_⟩
      rcases hstops with hblank | hzero | hbehind
      · exact List.all_eq_true.mp hblank
      · omega
      · -- A line feed right before the stop would be one of the content's last line.
        obtain ⟨x, hx, hxy⟩ := (hline.reaches hv.reaches).exists_feed hbehind
        have hoffset : y.offset = x.offset + 1 := hxy.offset
        obtain ⟨t, ht⟩ := hline.reaches_of_le hx (by omega)
        have hv' : v = t ++ ['\n'] := hv.upTo.symm.trans (ht.trans hxy).upTo
        exact absurd (hv' ▸ List.mem_append_right t (by simp)) hfeed
    · refine ⟨[], ?_, by simp⟩
      rw [List.append_nil, Cursor.line, hv.rest, List.append_assoc, List.cons_append,
        takeWhile_append_feed hfeed]

/-- A line that starts in a content and is not blank has at least the base of the content. -/
theorem baseIndent_le_indentOf (hs : s.InText source) (hstop : y.On source) (hy : y.offset = s.stop)
    (hstops : y.StopsLine source) (hline : line.IsLine source) (hblank : line.isLineBlank = false)
    (hin : s.contains line.offset = true) : baseIndent source s ≤ indentOf line.line := by
  obtain ⟨hlo, hhi⟩ := Span.contains_iff.mp hin
  rcases Nat.lt_or_eq_of_le hlo with hlt | heq
  · have hfeed : precededBy source line.offset '\n' = true := hline.start.resolve_left (by omega)
    obtain ⟨x, hx, hxline⟩ := hline.on.exists_feed hfeed
    have hoffset : line.offset = x.offset + 1 := hxline.offset
    have hp := on_atOffset hs.startsBetween
    obtain ⟨u, hu⟩ := hp.reaches_of_le hx (show s.start ≤ x.offset by omega)
    obtain ⟨v, hv⟩ := hline.on.reaches_of_le hstop (by omega)
    have hslice : slice source s = u ++ '\n' :: v := by
      have := hp.slice ((hu.trans hxline).trans hv)
      rw [hy] at this
      simpa [spanTo, atOffset] using this
    obtain ⟨w, hw, rest, hrest, hall⟩ := exists_splitLines hline.on hv (by omega) hstops
    have hshows : ¬ w.all isBlank = true := by
      intro hwblank
      rw [isLineBlank, hrest, List.all_append, hwblank, List.all_eq_true.mpr hall] at hblank
      cases hblank
    rw [hrest, indentOf_append_of_shows hshows]
    exact baseIndent_le hslice hw hshows
  · rw [baseIndent_eq_zero hline heq]
    exact Nat.zero_le _

end Prose

end Mdx

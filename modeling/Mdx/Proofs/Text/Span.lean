/-
Spans of a text as sets of its bytes. A span that stands between characters
(`Span.InText`) lies between two places of the text, so what is proved along
paths holds of it.
-/
import Mdx.Proofs.Text.Place

namespace Mdx

open Cursor

namespace Span

/-- The ends of the span are in order, in the text and between two of its characters. -/
structure InText (cs : List Char) (s : Span) : Prop where
  ordered : s.start ≤ s.stop
  bounded : s.stop ≤ byteLength cs
  startsBetween : isBoundary cs s.start = true
  stopsBetween : isBoundary cs s.stop = true

/-- No byte of the first span is outside the second. -/
structure Within (s t : Span) : Prop where
  start_le : t.start ≤ s.start
  le_stop : s.stop ≤ t.stop

/-- The spans have no byte in common. -/
def Disjoint (s t : Span) : Prop := ∀ o, ¬ (s.contains o = true ∧ t.contains o = true)

variable {s t : Span} {cs : List Char} {a b : Cursor}

theorem contains_iff {o : Nat} : s.contains o = true ↔ s.start ≤ o ∧ o < s.stop := by
  simp [contains]

theorem Within.contains {o : Nat} (h : s.Within t) (ho : s.contains o = true) : t.contains o = true := by
  have := h.start_le
  have := h.le_stop
  rw [contains_iff] at *
  omega

theorem Within.refl (s : Span) : s.Within s := ⟨Nat.le_refl _, Nat.le_refl _⟩

theorem Within.trans {u : Span} (h : s.Within t) (h' : t.Within u) : s.Within u :=
  ⟨Nat.le_trans h'.start_le h.start_le, Nat.le_trans h.le_stop h'.le_stop⟩

theorem Disjoint.symm (h : s.Disjoint t) : t.Disjoint s := fun o ho => h o ⟨ho.2, ho.1⟩

theorem disjoint_of_le (h : s.stop ≤ t.start) : s.Disjoint t := by
  intro o ho
  rw [contains_iff, contains_iff] at ho
  omega

theorem inText_spanTo (ha : a.On cs) (hab : a.Reaches b) : (a.spanTo b.offset).InText cs where
  ordered := hab.le
  bounded := (ha.reaches hab).le
  startsBetween := ha.isBoundary
  stopsBetween := (ha.reaches hab).isBoundary

/-- A span that stands between characters is the way from one place to another. -/
theorem InText.path (h : s.InText cs) :
    ∃ (a b : Cursor) (t : List Char), a.On cs ∧ a.Path t b ∧ s = a.spanTo b.offset := by
  have ha := on_atOffset h.startsBetween
  have hb := on_atOffset h.stopsBetween
  obtain ⟨t, ht⟩ := ha.reaches_of_le hb h.ordered
  exact ⟨_, _, t, ha, ht, rfl⟩

theorem InText.byteLength_slice (h : s.InText cs) : byteLength (slice cs s) = s.length := by
  obtain ⟨a, b, t, ha, ht, rfl⟩ := h.path
  rw [ha.slice ht]
  have := ht.offset
  simp only [length, spanTo]
  omega

/-- A span that goes on where another stops. -/
theorem InText.join (hs : s.InText cs) (ht : t.InText cs) (h : s.stop = t.start) :
    InText cs ⟨s.start, t.stop⟩ ∧ slice cs ⟨s.start, t.stop⟩ = slice cs s ++ slice cs t := by
  obtain ⟨a, b, u, ha, hu, rfl⟩ := hs.path
  obtain ⟨c, d, v, hc, hv, rfl⟩ := ht.path
  have heq : b = c := (ha.reaches hu.reaches).eq_of_offset_eq hc h
  subst heq
  refine ⟨inText_spanTo ha (hu.trans hv).reaches, ?_⟩
  rw [ha.slice hu, hc.slice hv]
  exact ha.slice (hu.trans hv)

end Span

/-! ## Characters that show -/

/-- At the offset stands a character that is not blank. -/
structure ShowsAt (cs : List Char) (offset : Nat) (ch : Char) : Prop where
  stands : charAt? cs offset = some ch
  shows : isBlank ch = false

/-- The whole of a character that stands at the offset lies in the span. -/
def Span.holdsChar (s : Span) (offset : Nat) (ch : Char) : Bool :=
  s.start ≤ offset && offset + ch.utf8Size ≤ s.stop

theorem Span.holdsChar_iff {s : Span} {offset : Nat} {ch : Char} :
    s.holdsChar offset ch = true ↔ s.start ≤ offset ∧ offset + ch.utf8Size ≤ s.stop := by
  simp [holdsChar]

theorem ShowsAt.lt {cs : List Char} {o : Nat} {ch : Char} (h : ShowsAt cs o ch) : o < byteLength cs :=
  lt_of_charAt? h.stands

/-- A span that holds the first byte of a character holds all of them. -/
theorem Span.InText.holdsChar {cs : List Char} {s : Span} {p : Nat} {ch : Char} (h : s.InText cs)
    (hch : charAt? cs p = some ch) (hp : s.contains p = true) : s.holdsChar p ch = true := by
  obtain ⟨x, hx, rfl, rest, hrest⟩ := on_of_charAt? hch
  obtain ⟨hlo, hhi⟩ := Span.contains_iff.mp hp
  obtain ⟨t, ht⟩ := hx.reaches_of_le (on_atOffset h.stopsBetween) (Nat.le_of_lt hhi)
  exact Span.holdsChar_iff.mpr ⟨hlo, (ht.head_mem hrest hhi).2⟩

theorem Span.contains_of_holdsChar {s : Span} {p o : Nat} {ch : Char} (h : s.holdsChar p ch = true)
    (hlo : p ≤ o) (hhi : o < p + ch.utf8Size) : s.contains o = true := by
  rw [Span.holdsChar_iff] at h
  exact Span.contains_iff.mpr ⟨by omega, by omega⟩

/-! ## Spans with other characters at their sides -/

/-- The span stands between two places of the text, and the characters right before it and right
behind it, if there are any, are none of `p`. -/
def Span.Fenced (p : Char → Bool) (text : List Char) (s : Span) : Prop :=
  ∃ (before inside : List Char) (a b : Cursor), (ofText text).Path before a ∧ a.Path inside b ∧
    s = a.spanTo b.offset ∧ (∀ ch, before.getLast? = some ch → p ch = false) ∧
    ∀ ch, b.rest.head? = some ch → p ch = false

/-- A run of characters of `p` does not leave a fenced span: it lies in it or outside of it. -/
theorem Span.Fenced.within_or_disjoint {p : Char → Bool} {text : List Char} {s run : Span}
    (h : s.Fenced p text) (hrun : run.InText text) (hp : ∀ ch ∈ slice text run, p ch = true) :
    run.Within s ∨ s.Disjoint run := by
  obtain ⟨before, inside, a, b, ha, hab, rfl, hbefore, hbehind⟩ := h
  obtain ⟨x, y, t, ⟨u, hu⟩, ht, rfl⟩ := hrun.path
  rw [On.slice ⟨u, hu⟩ ht] at hp
  by_cases hleft : y.offset ≤ a.offset
  · exact .inr (disjoint_of_le hleft).symm
  by_cases hright : b.offset ≤ x.offset
  · exact .inr (disjoint_of_le hright)
  refine .inl ⟨?_, ?_⟩
  · -- Else the last character before the span is one of the run.
    refine Nat.le_of_not_lt fun hlt => ?_
    obtain ⟨v, rfl, hv⟩ := hu.split ha (Nat.le_of_lt hlt)
    obtain ⟨w, rfl, -⟩ := hv.split ht (by omega)
    obtain ⟨ch, hch⟩ := Option.isSome_iff_exists.mp (List.getLast?_isSome.mpr (hv.ne_nil hlt))
    have := hbefore ch (by rw [List.getLast?_append, hch, Option.some_or])
    rw [hp ch (List.mem_append_left _ (List.mem_of_getLast? hch))] at this
    cases this
  · -- Else the first character behind the span is one of the run.
    refine Nat.le_of_not_lt fun hlt => ?_
    obtain ⟨v, -, hv⟩ := hu.split (ha.trans hab) (by omega)
    obtain ⟨w, rfl, hw⟩ := hv.split ht (Nat.le_of_lt hlt)
    obtain ⟨ch, w, rfl⟩ := List.exists_cons_of_ne_nil (hw.ne_nil hlt)
    have := hbehind ch (by rw [hw.rest]; rfl)
    rw [hp ch (by simp)] at this
    cases this

/-- A fenced span that goes on where another stops makes one with it. -/
theorem Span.Fenced.join {p : Char → Bool} {text : List Char} {s t : Span} (hs : s.Fenced p text)
    (ht : t.Fenced p text) (h : s.stop = t.start) : Span.Fenced p text ⟨s.start, t.stop⟩ := by
  obtain ⟨before, u, a, b, ha, hu, rfl, hbefore, -⟩ := hs
  obtain ⟨_, v, c, d, hc, hv, rfl, -, hbehind⟩ := ht
  have heq : b = c := (ha.trans hu).eq_of_offset_eq hc h
  subst heq
  exact ⟨before, u ++ v, a, d, ha, hu.trans hv, rfl, hbefore, hbehind⟩

end Mdx

/-
Shadows that are sealed. What is kept of a text is kept in parts that share no
byte, and between the parts the shadow is blank. So a shadow is sealed if each of
its parts is (`Parts.sealed`), up to any place that no part reaches over.
-/
import Mdx.Proofs.Script.Sealed
import Mdx.Proofs.Shadow
import Mdx.Proofs.Text.Span

namespace Mdx

open Cursor Script

/-- A part of the text is as it stands in the shadow if all that shows there is kept. -/
theorem shadowFrom_eq_of_shows {cs t : List Char} {kept : List Span} {a b : Cursor} (ha : a.On cs)
    (hp : a.Path t b) (h : ∀ o ch, ShowsAt cs o ch → a.offset ≤ o → o < b.offset →
      kept.any (·.contains o) = true) : shadowFrom kept a.offset t = t := by
  induction t generalizing a with
  | nil => rfl
  | cons ch t ih =>
    have hrest : a.rest = ch :: (t ++ b.rest) := hp.rest
    have hfirst := path_cons hrest
    have hnext : (a.drop 1).offset = a.offset + ch.utf8Size := by simpa using hfirst.offset
    have hlater := ih (ha.reaches hfirst.reaches) (Path.at_length (t := [ch]) hp).2
      fun o ch hshows hle => h o ch hshows (Nat.le_trans hfirst.le hle)
    have hkept : (isBlank ch || kept.any (·.contains a.offset)) = true := by
      cases hblank : isBlank ch with
      | true => rfl
      | false => exact h _ ch ⟨charAt?_offset ha hrest, hblank⟩ (Nat.le_refl _) (hp.lt (by simp))
    rw [shadowFrom, if_pos hkept, ← hnext, hlater]

/-- Spans of a text without a common byte, in which all stands that is kept of the text and shows. -/
structure Parts (cs : List Char) (kept : List Span) (IsPart : Span → Prop) : Prop where
  inText : ∀ u, IsPart u → u.InText cs
  apart : ∀ u v, IsPart u → IsPart v → u ≠ v → u.Disjoint v
  holds : ∀ o ch, ShowsAt cs o ch → kept.any (·.contains o) = true → ∃ u, IsPart u ∧ u.contains o = true

variable {cs t : List Char} {kept : List Span} {IsPart : Span → Prop} {c d : Cursor}

/-- No part reaches over the offset. -/
def OutsideParts (IsPart : Span → Prop) (o : Nat) : Prop := ∀ u, IsPart u → u.start < o → u.stop ≤ o

namespace Parts

/-- Where a part stops no other one goes on. -/
theorem outside_stop (h : Parts cs kept IsPart) {u : Span} (hu : IsPart u) (hne : u.start < u.stop) :
    OutsideParts IsPart u.stop := by
  intro v hv hstart
  by_cases heq : u = v
  · exact heq ▸ Nat.le_refl _
  · refine Nat.le_of_not_lt fun hstop => h.apart u v hu hv heq (max u.start v.start) ?_
    constructor <;> rw [Span.contains_iff] <;> omega

/-- Where a part starts no other one goes on. -/
theorem outside_start (h : Parts cs kept IsPart) {u : Span} (hu : IsPart u) (hne : u.start < u.stop) :
    OutsideParts IsPart u.start := by
  intro v hv hstart
  by_cases heq : u = v
  · rw [heq] at hstart
    exact absurd hstart (Nat.lt_irrefl _)
  · refine Nat.le_of_not_lt fun hstop => h.apart u v hu hv heq u.start ?_
    constructor <;> rw [Span.contains_iff] <;> omega

/-- Behind a character that is in no part no part goes on. -/
theorem outside_next (h : Parts cs kept IsPart) (hc : c.On cs) {ch : Char} {rest : List Char}
    (hrest : c.rest = ch :: rest) (hfree : ∀ u, IsPart u → u.contains c.offset = false) :
    OutsideParts IsPart (c.drop 1).offset := by
  have hnext : (c.drop 1).offset = c.offset + ch.utf8Size := by simpa using (path_cons hrest).offset
  intro u hu hstart
  obtain ⟨a, b, w, ha, hw, rfl⟩ := (h.inText u hu).path
  simp only [spanTo] at hstart ⊢
  -- The part starts at a character, so not within this one.
  have hle : a.offset ≤ c.offset := by
    refine Nat.le_of_not_lt fun hlt => ?_
    obtain ⟨v, hv⟩ := hc.reaches_of_le ha (Nat.le_of_lt hlt)
    have hbehind := (hv.head_mem hrest hlt).2
    omega
  have hout := hfree _ hu
  rw [← Bool.not_eq_true, Span.contains_iff] at hout
  simp only [spanTo] at hout
  omega

/-- The shadow of a character that is in no part is blank. -/
theorem shadowFrom_cons_blank (h : Parts cs kept IsPart) (hc : c.On cs) {ch : Char} {rest : List Char}
    (hrest : c.rest = ch :: rest) (hfree : ∀ u, IsPart u → u.contains c.offset = false) (later : List Char) :
    ∃ blanks, (∀ x ∈ blanks, isBlank x = true) ∧ shadowFrom kept c.offset (ch :: later) =
      blanks ++ shadowFrom kept (c.drop 1).offset later := by
  have hnext : (c.drop 1).offset = c.offset + ch.utf8Size := by simpa using (path_cons hrest).offset
  obtain ⟨blanks, heq, -, hin, hout⟩ := shadowFrom_cons kept c.offset ch later
  refine ⟨blanks, ?_, hnext ▸ heq⟩
  cases hkept : kept.any (·.contains c.offset) with
  | false => exact (hout hkept).2
  | true =>
    rw [hin hkept, List.forall_mem_singleton, ← Bool.not_eq_false]
    intro hshows
    obtain ⟨u, hu, hcontains⟩ := h.holds _ ch ⟨charAt?_offset hc hrest, hshows⟩ hkept
    rw [hfree u hu] at hcontains
    cases hcontains

/-- The shadow of a text is sealed if its parts are. -/
theorem sealed (h : Parts cs kept IsPart) (hc : c.On cs) (hp : c.Path t d)
    (hstart : OutsideParts IsPart c.offset) (hstop : OutsideParts IsPart d.offset)
    (hparts : ∀ u, IsPart u → u.stop ≤ d.offset → Sealed (shadowFrom kept u.start (slice cs u))) :
    Sealed (shadowFrom kept c.offset t) := by
  induction hn : t.length using Nat.strongRecOn generalizing c t with
  | ind n ih =>
    cases t with
    | nil => exact sealed_nil
    | cons ch t =>
      have hrest : c.rest = ch :: (t ++ d.rest) := hp.rest
      by_cases hpart : ∃ u, IsPart u ∧ u.start = c.offset ∧ u.start < u.stop
      · -- A part starts here, and the text goes on where it stops.
        obtain ⟨u, hu, hoffset, hne⟩ := hpart
        obtain ⟨a, b, w, ha, hw, rfl⟩ := (h.inText u hu).path
        simp only [spanTo] at hoffset hne
        obtain rfl : a = c := Reaches.eq_of_offset_eq ha hc hoffset
        have hle : b.offset ≤ d.offset := hstop _ hu (hp.lt (by simp))
        obtain ⟨later, htext, hlater⟩ := hw.split hp hle
        have hsealed := hparts _ hu hle
        rw [ha.slice hw] at hsealed
        rw [htext, shadowFrom_append, ← hw.offset]
        refine hsealed.append (ih later.length ?_ (ha.reaches hw.reaches) hlater (h.outside_stop hu hne) rfl)
        have hlength := List.length_pos_iff.mpr (hw.ne_nil hne)
        rw [← hn, htext, List.length_append]
        omega
      · have hfree : ∀ u, IsPart u → u.contains c.offset = false := by
          intro u hu
          rw [← Bool.not_eq_true, Span.contains_iff]
          rintro ⟨hle, hlt⟩
          rcases Nat.lt_or_eq_of_le hle with hbefore | heq
          · exact Nat.not_le_of_lt hlt (hstart u hu hbefore)
          · exact hpart ⟨u, hu, heq, heq ▸ hlt⟩
        obtain ⟨blanks, hblank, heq⟩ := h.shadowFrom_cons_blank hc hrest hfree t
        have hp' : (c.drop 1).Path t d := (Path.at_length (t := [ch]) hp).2
        rw [heq]
        exact (sealed_blanks hblank).append (ih t.length (by simp [← hn]) (hc.reaches (reaches_drop c 1)) hp'
          (h.outside_next hc hrest hfree) rfl)

end Parts

end Mdx

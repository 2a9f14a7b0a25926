/-
The shadow of a text stands byte for byte under it: a path of the text is a path
of the shadow between the same offsets (`Path.under`). What lies in a kept span
is the text itself (`shadowFrom_eq_self`), and what lies in none is blank; so a
span that is kept and touches no other has only blanks at its sides
(`fenced_shadow`).
-/
import Mdx.Proofs.RangeSet
import Mdx.Shadow

namespace Mdx

open Cursor

theorem byteLength_replicate_space (n : Nat) : byteLength (List.replicate n ' ') = n := by
  have hsize : (' ' : Char).utf8Size = 1 := by decide
  induction n with
  | zero => rfl
  | succ n ih =>
    rw [List.replicate_succ, byteLength_cons, ih, hsize]
    omega

variable {kept : List Span} {o : Nat}

/-- The shadow of one character has its bytes. -/
theorem shadowFrom_cons (kept : List Span) (o : Nat) (ch : Char) (cs : List Char) :
    ∃ t, shadowFrom kept o (ch :: cs) = t ++ shadowFrom kept (o + ch.utf8Size) cs ∧
      byteLength t = ch.utf8Size ∧ (kept.any (·.contains o) = true → t = [ch]) ∧
      (kept.any (·.contains o) = false → t ≠ [] ∧ ∀ c ∈ t, isBlank c = true) := by
  rw [shadowFrom]
  split
  · next hkeep =>
    refine ⟨[ch], rfl, rfl, fun _ => rfl, fun hout => ⟨by simp, fun c hc => ?_⟩⟩
    rw [hout, Bool.or_false] at hkeep
    exact List.mem_singleton.mp hc ▸ hkeep
  · next hblank =>
    refine ⟨_, rfl, byteLength_replicate_space _, fun hin => ?_, fun _ => ⟨?_, fun c hc => ?_⟩⟩
    · rw [hin, Bool.or_true] at hblank
      exact absurd rfl hblank
    · have := ch.utf8Size_pos
      simp only [ne_eq, List.replicate_eq_nil_iff]
      omega
    · rw [List.eq_of_mem_replicate hc]
      decide

theorem byteLength_shadowFrom (kept : List Span) (o : Nat) (cs : List Char) :
    byteLength (shadowFrom kept o cs) = byteLength cs := by
  induction cs generalizing o with
  | nil => rfl
  | cons ch cs ih =>
    obtain ⟨t, heq, hlen, -, -⟩ := shadowFrom_cons kept o ch cs
    rw [heq, byteLength_append, hlen, ih, byteLength_cons]

theorem shadowFrom_append (kept : List Span) (o : Nat) (a b : List Char) :
    shadowFrom kept o (a ++ b) = shadowFrom kept o a ++ shadowFrom kept (o + byteLength a) b := by
  induction a generalizing o with
  | nil => rfl
  | cons ch a ih =>
    rw [List.cons_append, shadowFrom, shadowFrom, ih, byteLength_cons, Nat.add_assoc]
    split
    · rfl
    · rw [List.append_assoc]

/-- What shows in the shadow is kept. -/
theorem contains_of_charAt?_shadowFrom {cs : List Char} {n : Nat} {c : Char}
    (h : charAt? (shadowFrom kept o cs) n = some c) (hshows : isBlank c = false) :
    kept.any (·.contains (o + n)) = true := by
  induction cs generalizing o n with
  | nil => cases h
  | cons ch cs ih =>
    obtain ⟨t, heq, hlength, hin, hout⟩ := shadowFrom_cons kept o ch cs
    rw [heq, charAt?_append_eq, hlength] at h
    split at h
    · cases hkept : kept.any (·.contains o) with
      | true =>
        rw [hin hkept] at h
        cases n with
        | zero => exact hkept
        | succ n => simp [charAt?] at h
      | false =>
        rw [(hout hkept).2 c (mem_of_charAt? h)] at hshows
        cases hshows
    · have hlater := ih h
      rwa [Nat.add_assoc, Nat.add_sub_cancel' (by omega)] at hlater

/-- What lies in a kept span is kept. -/
theorem shadowFrom_eq_self {s : Span} {t : List Char} (hs : s ∈ kept) (hlo : s.start ≤ o)
    (hhi : o + byteLength t ≤ s.stop) : shadowFrom kept o t = t := by
  induction t generalizing o with
  | nil => rfl
  | cons ch t ih =>
    obtain ⟨u, heq, -, hin, -⟩ := shadowFrom_cons kept o ch t
    have := ch.utf8Size_pos
    rw [byteLength_cons] at hhi
    have ho : kept.any (·.contains o) = true :=
      List.any_eq_true.mpr ⟨s, hs, Span.contains_iff.mpr ⟨hlo, by omega⟩⟩
    rw [heq, hin ho, ih (by omega) (by omega)]
    rfl

namespace Cursor

/-- The place in the shadow under a place of the text. -/
def under (kept : List Span) (c : Cursor) : Cursor := ⟨c.offset, shadowFrom kept c.offset c.rest⟩

theorem Path.under {c d : Cursor} {t : List Char} (h : c.Path t d) (kept : List Span) :
    (c.under kept).Path (shadowFrom kept c.offset t) (d.under kept) where
  rest := by
    simp only [Cursor.under]
    rw [h.rest, shadowFrom_append, ← h.offset]
  offset := by
    rw [byteLength_shadowFrom]
    exact h.offset

/-- The place of the text in a longer one. -/
def amid (front back : List Char) (c : Cursor) : Cursor := ⟨byteLength front + c.offset, c.rest ++ back⟩

theorem Path.amid {c d : Cursor} {t : List Char} (h : c.Path t d) (front back : List Char) :
    (c.amid front back).Path t (d.amid front back) where
  rest := by rw [Cursor.amid, h.rest, List.append_assoc]; rfl
  offset := by simp only [Cursor.amid, h.offset, Nat.add_assoc]

theorem path_amid (front text back : List Char) :
    (ofText (front ++ text ++ back)).Path front ((ofText text).amid front back) :=
  ⟨by simp [ofText, Cursor.amid], by simp [ofText, Cursor.amid]⟩

end Cursor

/-! ## The sides of a kept span -/

/-- The shadow of a character that is in no kept span is blank at its start... -/
theorem isBlank_head_shadowFrom {cs : List Char} {c : Char} (h : kept.any (·.contains o) = false)
    (hc : (shadowFrom kept o cs).head? = some c) : isBlank c = true := by
  cases cs with
  | nil => cases hc
  | cons ch cs =>
    obtain ⟨t, heq, -, -, hout⟩ := shadowFrom_cons kept o ch cs
    obtain ⟨hne, hblank⟩ := hout h
    obtain ⟨d, t, rfl⟩ := List.exists_cons_of_ne_nil hne
    rw [heq] at hc
    cases hc
    exact hblank _ (by simp)

/-- ...and at its end. -/
theorem isBlank_getLast_shadowFrom {cs : List Char} {ch c : Char}
    (h : kept.any (·.contains (o + byteLength cs)) = false)
    (hc : (shadowFrom kept o (cs ++ [ch])).getLast? = some c) : isBlank c = true := by
  obtain ⟨t, heq, -, -, hout⟩ := shadowFrom_cons kept (o + byteLength cs) ch []
  obtain ⟨hne, hblank⟩ := hout h
  obtain ⟨d, hd⟩ := Option.isSome_iff_exists.mp (List.getLast?_isSome.mpr hne)
  rw [shadowFrom_append, heq, shadowFrom, List.append_nil, List.getLast?_append, hd] at hc
  cases hc
  exact hblank _ (List.mem_of_getLast? hd)

section Set

variable {set : RangeSet} {source : List Char} {s : Span}

/-- No span of a set holds the character right before another one. -/
theorem contains_before_eq_false (hset : set.Sorted) (hin : ∀ t ∈ set.ranges, t.InText source)
    (hs : s ∈ set.merged) {u : List Char} {ch : Char} {a : Cursor} (hu : (ofText source).Path (u ++ [ch]) a)
    (ha : a.offset = s.start) : set.merged.any (·.contains (byteLength u)) = false := by
  have hsep := RangeSet.separated_merged hset
  have hoffset : a.offset = byteLength u + ch.utf8Size := by
    simpa [ofText, byteLength_append] using hu.offset
  have hch : charAt? source (byteLength u) = some ch := by
    have hsource : source = u ++ ch :: a.rest := by simpa [ofText] using hu.rest
    exact hsource ▸ charAt?_append u ch a.rest
  refine List.any_eq_false.mpr fun k hk hcontains => ?_
  have hholds := Span.holdsChar_iff.mp ((RangeSet.inText_merged hin k hk).holdsChar hch hcontains)
  have := hsep.nonempty s hs
  have := ch.utf8Size_pos
  rcases hsep.eq_or_apart hs hk with rfl | h | h <;> omega

/-- A span of the set has only blanks at its sides in the shadow, and so it has in a text around the
shadow, unless the text itself puts something there. -/
theorem fenced_shadow {p : Char → Bool} (hp : ∀ ch, isBlank ch = true → p ch = false)
    (hset : set.Sorted) (hin : ∀ t ∈ set.ranges, t.InText source) (hs : s ∈ set.merged)
    {front back : List Char} (hfront : ∀ ch, front.getLast? = some ch → p ch = false)
    (hback : ∀ ch, back.head? = some ch → p ch = false) :
    Span.Fenced p (front ++ shadow set source ++ back)
      ⟨byteLength front + s.start, byteLength front + s.stop⟩ := by
  obtain ⟨a, b, t, ⟨u, hu⟩, ht, rfl⟩ := (RangeSet.inText_merged hin s hs).path
  refine ⟨front ++ shadowFrom set.merged 0 u, _, _, _,
    (path_amid front _ back).trans ((hu.under set.merged).amid front back),
    (ht.under set.merged).amid front back, rfl, fun ch hch => ?_, fun ch hch => ?_⟩
  · rw [List.getLast?_append, Option.or_eq_some_iff] at hch
    rcases hch with hch | ⟨-, hch⟩
    · obtain rfl | ⟨u, d, rfl⟩ := List.eq_nil_or_concat u
      · cases hch
      · rw [List.concat_eq_append] at hu hch
        have hbefore := contains_before_eq_false hset hin hs hu rfl
        rw [← Nat.zero_add (byteLength u)] at hbefore
        exact hp ch (isBlank_getLast_shadowFrom hbefore hch)
    · exact hfront ch hch
  · rw [amid, List.head?_append, Option.or_eq_some_iff] at hch
    rcases hch with hch | ⟨-, hch⟩
    · exact hp ch (isBlank_head_shadowFrom ((RangeSet.separated_merged hset).any_stop hs) hch)
    · exact hback ch hch

end Set

end Mdx

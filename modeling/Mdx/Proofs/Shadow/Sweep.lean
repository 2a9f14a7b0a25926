/-
The two shadows of a text in one sweep. The sweep keeps the spans of each set that
are still ahead of it. It leaves spans behind only at a character that shows, never
looks back, and asks only the first span ahead; blanks are passed without a look at
any span. That is enough since the spans of a set ascend: what is left behind stops
before every later character, and of the spans ahead only the first can have
started (`head?_ahead`). So at each character the sweep answers as a look at the
whole set does (`sweep_eq_shadows`).

What a shadow has at the place of a character follows from the places of the text
and of the shadow being the same (`standsUnder_shadow`).
-/
import Mdx.Proofs.RangeSet.Canonical
import Mdx.Proofs.Shadow

namespace Mdx

open Cursor

/-! ## The sweep -/

/-- The spans of a list that do not stop at the offset or before it, from the first such on. -/
def ahead (spans : List Span) (offset : Nat) : List Span := spans.dropWhile (·.stop ≤ offset)

/-- What a character becomes: itself if the first span has started, else a space for each byte. -/
def swept (spans : List Span) (offset : Nat) (c : Char) : List Char :=
  if spans.head?.any (·.start ≤ offset) then [c] else List.replicate c.utf8Size ' '

/-- The shadows of the characters from `offset` on under the spans that are ahead. -/
def sweep (modules code : List Span) (offset : Nat) : List Char → List Char × List Char
  | [] => ([], [])
  | c :: cs =>
    if isBlank c then
      let later := sweep modules code (offset + c.utf8Size) cs
      (c :: later.1, c :: later.2)
    else
      let modules := ahead modules offset
      let code := ahead code offset
      let later := sweep modules code (offset + c.utf8Size) cs
      (swept modules offset c ++ later.1, swept code offset c ++ later.2)

section Ahead

variable {spans kept : List Span} {o p : Nat}

theorem separated_ahead (h : RangeSet.Separated spans) (o : Nat) : RangeSet.Separated (ahead spans o) where
  nonempty := fun s hs => h.nonempty s ((List.dropWhile_sublist _).subset hs)
  apart := h.apart.sublist (List.dropWhile_sublist _)

/-- What is left behind has no byte from the offset on. -/
theorem any_ahead (hle : o ≤ p) : (ahead spans o).any (·.contains p) = spans.any (·.contains p) := by
  induction spans with
  | nil => rfl
  | cons s spans ih =>
    by_cases hs : s.stop ≤ o
    · have hout : s.contains p = false := by simp [Span.contains]; omega
      rw [ahead, List.dropWhile_cons_of_pos (by simpa using hs), List.any_cons, hout, Bool.false_or]
      exact ih
    · rw [ahead, List.dropWhile_cons_of_neg (by simpa using hs)]

/-- The first span ahead answers for all of them. -/
theorem head?_ahead (h : RangeSet.Separated spans) (o : Nat) :
    (ahead spans o).head?.any (·.start ≤ o) = spans.any (·.contains o) := by
  rw [← any_ahead (Nat.le_refl o)]
  have hsep := separated_ahead h o
  have hhead := List.head?_dropWhile_not (·.stop ≤ o) spans
  cases hlist : ahead spans o with
  | nil => rfl
  | cons s rest =>
    rw [ahead] at hlist
    simp only [hlist, List.head?_cons, decide_eq_false_iff_not] at hhead
    rw [ahead, hlist] at hsep
    by_cases hs : s.start ≤ o
    · simp [Span.contains, hs]
      omega
    · -- The later spans start further on.
      have hnone : (s :: rest).any (·.contains o) = false := by
        refine List.any_eq_false.mpr fun t ht hto => hs ?_
        exact Nat.le_trans (hsep.start_le ht) (Span.contains_iff.mp hto).1
      rw [hnone, List.head?_cons, Option.any_some, decide_eq_false hs]

/-- The spans ahead of a sweep that has come to the offset, of all that are kept. -/
structure AheadOf (kept spans : List Span) (o : Nat) : Prop where
  separated : RangeSet.Separated spans
  any_eq : ∀ p, o ≤ p → spans.any (·.contains p) = kept.any (·.contains p)

theorem AheadOf.later (h : AheadOf kept spans o) (hle : o ≤ p) : AheadOf kept spans p :=
  ⟨h.separated, fun q hq => h.any_eq q (Nat.le_trans hle hq)⟩

theorem AheadOf.ahead (h : AheadOf kept spans o) : AheadOf kept (ahead spans o) o :=
  ⟨separated_ahead h.separated o, fun p hp => (any_ahead hp).trans (h.any_eq p hp)⟩

/-- A character that shows is swept as the shadow has it. -/
theorem AheadOf.shadowFrom_cons (h : AheadOf kept spans o) {c : Char} (hc : isBlank c = false)
    (cs : List Char) :
    shadowFrom kept o (c :: cs) = swept (Mdx.ahead spans o) o c ++ shadowFrom kept (o + c.utf8Size) cs := by
  have hkept := (head?_ahead h.separated o).trans (h.any_eq o (Nat.le_refl o))
  rw [swept, hkept, shadowFrom, hc, Bool.false_or]
  split <;> rfl

end Ahead

/-- At each character the sweep does what the shadows say, and what it has ahead of it afterwards is
still all that can matter. -/
theorem sweep_eq_shadows {modules code ms cs : List Span} {o : Nat} (hms : AheadOf modules ms o)
    (hcs : AheadOf code cs o) (text : List Char) :
    sweep ms cs o text = (shadowFrom modules o text, shadowFrom code o text) := by
  induction text generalizing ms cs o with
  | nil => rfl
  | cons c text ih =>
    have hle : o ≤ o + c.utf8Size := Nat.le_add_right o _
    by_cases hc : isBlank c = true
    · rw [sweep, if_pos hc]
      simp only [ih (hms.later hle) (hcs.later hle)]
      simp [shadowFrom, hc]
    · rw [sweep, if_neg hc]
      simp only [ih (hms.ahead.later hle) (hcs.ahead.later hle)]
      rw [Bool.not_eq_true] at hc
      rw [hms.shadowFrom_cons hc, hcs.shadowFrom_cons hc]

/-! ## Characters and their shadows -/

/-- The text is as long as the source, and at the place of each character of the source it has that
character, if it is blank or in the set, and else a space for each of its bytes. -/
structure StandsUnder (set : RangeSet) (source text : List Char) : Prop where
  byteLength_eq : byteLength text = byteLength source
  inText : ∀ o c, charAt? source o = some c → Span.InText text ⟨o, o + c.utf8Size⟩
  slice_eq : ∀ o c, charAt? source o = some c → slice text ⟨o, o + c.utf8Size⟩ =
    if isBlank c || set.contains o then [c] else List.replicate c.utf8Size ' '

/-- The place in the shadow of a character, and what stands there. -/
theorem path_shadow (set : RangeSet) {source : List Char} {o : Nat} {c : Char}
    (h : charAt? source o = some c) : ∃ a b : Cursor, a.On (shadow set source) ∧
      a.spanTo b.offset = ⟨o, o + c.utf8Size⟩ ∧
      a.Path (if isBlank c || set.contains o then [c] else List.replicate c.utf8Size ' ') b := by
  obtain ⟨x, ⟨before, hx⟩, rfl, rest, hrest⟩ := on_of_charAt? h
  have hc := path_cons hrest
  refine ⟨x.under set.merged, (x.drop 1).under set.merged, ⟨_, hx.under set.merged⟩, ?_, ?_⟩
  · have hoffset : (x.drop 1).offset = x.offset + c.utf8Size := by simpa using hc.offset
    simp [under, spanTo, hoffset]
  · have hpath := hc.under set.merged
    simp only [shadowFrom, List.append_nil] at hpath
    exact hpath

theorem standsUnder_shadow (set : RangeSet) (source : List Char) :
    StandsUnder set source (shadow set source) where
  byteLength_eq := byteLength_shadowFrom _ 0 source
  inText := by
    intro o c h
    obtain ⟨a, b, ha, hspan, hpath⟩ := path_shadow set h
    exact hspan ▸ Span.inText_spanTo ha hpath.reaches
  slice_eq := by
    intro o c h
    obtain ⟨a, b, ha, hspan, hpath⟩ := path_shadow set h
    rw [← hspan, ha.slice hpath]

/-- **Shadows stand under their source.** For all sets of module code and of embedded code, one sweep over
a text gives the shadows of the text under both of them, and each stands under the text character by
character. -/
theorem sweep_stands_under (source : List Char) (modules code : List Span) :
    let shadows := sweep (RangeSet.ofList modules).merged (RangeSet.ofList code).merged 0 source
    shadows = (shadow (.ofList modules) source, shadow (.ofList code) source) ∧
      StandsUnder (.ofList modules) source shadows.1 ∧ StandsUnder (.ofList code) source shadows.2 := by
  have hstart : ∀ spans, AheadOf (RangeSet.ofList spans).merged (RangeSet.ofList spans).merged 0 :=
    fun spans => ⟨RangeSet.separated_merged (RangeSet.sorted_ofList spans), fun _ _ => rfl⟩
  rw [sweep_eq_shadows (hstart modules) (hstart code)]
  exact ⟨rfl, standsUnder_shadow _ source, standsUnder_shadow _ source⟩

/-- A span of blanks only, which the sweep passes without a look, and a character of two bytes. -/
example : sweep (RangeSet.ofList [⟨1, 3⟩, ⟨3, 4⟩, ⟨6, 7⟩]).merged (RangeSet.ofList [⟨4, 6⟩]).merged 0
    "a  béc".toList = ("   b  c".toList, "    é ".toList) := by
  cbv

end Mdx

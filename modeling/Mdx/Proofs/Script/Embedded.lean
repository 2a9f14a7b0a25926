/-
Script inside other script. A sealed text hides the bytes behind it no more and
no less than they hide themselves (`hiddenFrom_append`), so a sealed text that
stands between others has the identifiers that it has by itself
(`exists_embedded_iff`), unless one runs on over its ends.
-/
import Mdx.Proofs.Script.Run

namespace Mdx

/-- The span `n` bytes further on. -/
def Span.moved (n : Nat) (s : Span) : Span := ⟨n + s.start, n + s.stop⟩

namespace Script

open Cursor

/-! ## Hidden bytes -/

/-- The byte at the offset is hidden in the text that stands at `base`. -/
def HiddenFrom (base : Nat) (cs : List Char) (o : Nat) : Prop :=
  ∃ t ∈ firmTokens base cs, t.kind.hides = true ∧ t.span.contains o = true

variable {text cs rest : List Char} {base o n : Nat} {s : Span}

theorem isHidden_iff : IsHidden text o ↔ HiddenFrom 0 text o := by
  refine exists_congr fun t => ?_
  rw [firmTokens, List.mem_filter, and_assoc]
  refine and_congr_right fun _ => (and_iff_right_of_imp fun h => ?_).symm
  have hhides := h.1
  revert hhides
  cases t.kind <;> simp [TokenKind.hides, TokenKind.isFirm]

theorem stop_le_of_mem_locate {ts : List Token} {t : Located} (h : t ∈ locate base ts) :
    t.span.stop ≤ base + byteLength (ts.flatMap Token.text) := by
  induction ts generalizing base with
  | nil => cases h
  | cons token ts ih =>
    rw [List.flatMap_cons, byteLength_append]
    rcases List.mem_cons.mp h with rfl | h
    · show base + byteLength token.text ≤ _
      omega
    · have := ih h
      omega

theorem HiddenFrom.bounds (h : HiddenFrom base cs o) : base ≤ o ∧ o < base + byteLength cs := by
  obtain ⟨t, ht, -, hcontains⟩ := h
  have hmem := (List.mem_filter.mp ht).1
  have hstart := (le_of_mem_locate hmem).1
  have hstop := stop_le_of_mem_locate hmem
  rw [tokenize_flatMap_text] at hstop
  rw [Span.contains_iff] at hcontains
  omega

/-- Behind a sealed text bytes are hidden as they are by themselves. -/
theorem hiddenFrom_append (h : Sealed cs) : HiddenFrom base (cs ++ rest) o ↔
    HiddenFrom base cs o ∨ HiddenFrom (base + byteLength cs) rest o := by
  simp only [HiddenFrom, h base rest, List.mem_append, or_and_right, exists_or]

theorem locate_add (n base : Nat) (ts : List Token) :
    locate (n + base) ts = (locate base ts).map fun t => ⟨t.kind, t.text, t.span.moved n⟩ := by
  induction ts generalizing base with
  | nil => rfl
  | cons t ts ih =>
    simp only [locate, List.map_cons, Nat.add_assoc, ih]
    rfl

/-- A text hides the same bytes wherever it stands. -/
theorem hiddenFrom_add : HiddenFrom (n + base) cs (n + o) ↔ HiddenFrom base cs o := by
  have hcontains : ∀ t : Span, (t.moved n).contains (n + o) = t.contains o := by
    intro t
    rw [Bool.eq_iff_iff, Span.contains_iff, Span.contains_iff]
    simp only [Span.moved]
    omega
  simp only [HiddenFrom, firmTokens, locate_add, List.filter_map, List.mem_map, exists_exists_and_eq_and,
    hcontains]
  rfl

/-! ## Runs -/

theorem slice_append (front name back : List Char) :
    slice (front ++ name ++ back) ⟨byteLength front, byteLength front + byteLength name⟩ = name := by
  have ha : (ofText (front ++ name ++ back)).Path front ⟨byteLength front, name ++ back⟩ :=
    ⟨List.append_assoc _ _ _, (Nat.zero_add _).symm⟩
  have hab : Path ⟨byteLength front, name ++ back⟩ name ⟨byteLength front + byteLength name, back⟩ := ⟨rfl, rfl⟩
  exact On.slice ⟨front, ha⟩ hab

/-- A run cuts its text in three. -/
theorem isRun_iff_append : IsRun text s ↔ ∃ front name back, text = front ++ name ++ back ∧
    s = ⟨byteLength front, byteLength front + byteLength name⟩ ∧ front.getLast?.any isIdentifierChar = false ∧
      back.head?.any isIdentifierChar = false ∧ name.head?.any isIdentifierStart = true ∧
      ∀ ch ∈ name, isIdentifierChar ch = true := by
  constructor
  · intro h
    obtain ⟨front, name, a, b, ha, hab, rfl, hfront, hback, hstarts⟩ := h.path
    have hchars := h.chars
    rw [On.slice ⟨front, ha⟩ hab] at hchars
    refine ⟨front, name, b.rest, (ha.trans hab).rest, ?_, hfront, hback, hstarts, hchars⟩
    have hstart : a.offset = byteLength front := ha.offset.trans (Nat.zero_add _)
    rw [spanTo, hab.offset, hstart]
  · rintro ⟨front, name, back, rfl, rfl, hfront, hback, hstarts, hchars⟩
    have ha : (ofText (front ++ name ++ back)).Path front ⟨byteLength front, name ++ back⟩ :=
      ⟨List.append_assoc _ _ _, (Nat.zero_add _).symm⟩
    have hab : Path ⟨byteLength front, name ++ back⟩ name ⟨byteLength front + byteLength name, back⟩ := ⟨rfl, rfl⟩
    have hslice := slice_append front name back
    refine ⟨⟨front, name, _, _, ha, hab, rfl, fun ch hch => ?_, fun ch hch => ?_⟩, ?_, ?_⟩
    · simpa [hch] using hfront
    · have hch : back.head? = some ch := hch
      simpa [hch] using hback
    · rwa [hslice]
    · rwa [hslice]

/-- No run goes on from the first text into the second. -/
def CutsNoRun (a b : List Char) : Prop := ∀ last ch, a.getLast? = some last → b.head? = some ch →
  isIdentifierChar last = true → isIdentifierChar ch = false

theorem cutsNoRun_of_getLast? {a : List Char} {last : Char} (h : a.getLast? = some last)
    (hlast : isIdentifierChar last = false) (b : List Char) : CutsNoRun a b := by
  intro other _ hother _ hchar
  cases h.symm.trans hother
  rw [hlast] at hchar
  cases hchar

section Embedded

variable {front mid back : List Char}

/-- A name that is cut out of `front ++ mid ++ back` and starts in `mid` is cut out of `mid`, if no run goes
on over its end. -/
theorem exists_infix_of_embedded {u name w : List Char} (hback : CutsNoRun mid back)
    (heq : front ++ mid ++ back = u ++ name ++ w) (hstart : byteLength front ≤ byteLength u)
    (hlt : byteLength u < byteLength front + byteLength mid) (hchars : ∀ ch ∈ name, isIdentifierChar ch = true) :
    ∃ u' x, u = front ++ u' ∧ w = x ++ back ∧ mid = u' ++ name ++ x := by
  rw [List.append_assoc, List.append_assoc] at heq
  obtain ⟨u, rfl, htail⟩ : ∃ u', u = front ++ u' ∧ mid ++ back = u' ++ (name ++ w) := by
    rcases List.append_eq_append_iff.mp heq with ⟨u', hu', hrest⟩ | ⟨v, rfl, hrest⟩
    · exact ⟨u', hu', hrest⟩
    · rw [byteLength_append] at hstart
      obtain rfl : v = [] := byteLength_eq_zero (by omega)
      exact ⟨[], (List.append_nil _).symm ▸ (List.append_nil _).symm, hrest.symm⟩
  rw [byteLength_append] at hlt
  obtain ⟨v, rfl, hv⟩ : ∃ v, mid = u ++ v ∧ name ++ w = v ++ back := by
    rcases List.append_eq_append_iff.mp htail with ⟨v, rfl, -⟩ | ⟨v, hmid, hrest⟩
    · rw [byteLength_append] at hlt
      omega
    · exact ⟨v, hmid, hrest⟩
  -- The name stops before what is behind the text, which does not go on with it.
  rcases List.append_eq_append_iff.mp hv with ⟨x, rfl, rfl⟩ | ⟨x, rfl, rfl⟩
  · exact ⟨u, x, rfl, rfl, (List.append_assoc _ _ _).symm⟩
  · cases x with
    | nil => exact ⟨u, [], rfl, rfl, by simp⟩
    | cons ch x =>
      have hne : v ≠ [] := by
        rintro rfl
        simp at hlt
      obtain ⟨v, last, rfl⟩ := exists_last_of_ne_nil hne
      have hnone := hback last ch (by simp) rfl (hchars last (by simp))
      rw [hchars ch (by simp)] at hnone
      cases hnone

/-- No identifier character is before a name in `mid` if there is none in it, and no run goes on into `mid`. -/
theorem any_getLast?_embedded {u name x : List Char} (hfront : CutsNoRun front (u ++ name ++ x)) (hname : name ≠ [])
    (hchars : ∀ ch ∈ name, isIdentifierChar ch = true) (hu : u.getLast?.any isIdentifierChar = false) :
    (front ++ u).getLast?.any isIdentifierChar = false := by
  rw [List.getLast?_append]
  cases hlast : u.getLast? with
  | some ch => rwa [Option.some_or, ← hlast]
  | none =>
    obtain rfl := List.getLast?_eq_none_iff.mp hlast
    obtain ⟨ch, name, rfl⟩ := List.exists_cons_of_ne_nil hname
    refine any_eq_false_of_forall fun last hfrontLast => Bool.eq_false_iff.mpr fun hchar => ?_
    have hnone := hfront last ch (by simpa using hfrontLast) rfl hchar
    rw [hchars ch List.mem_cons_self] at hnone
    cases hnone

/-- The runs of a text that stands between others are its own, if none runs on over its ends. -/
theorem isRun_embedded_iff (hfront : CutsNoRun front mid) (hback : CutsNoRun mid back)
    (hstart : byteLength front ≤ s.start) (hlt : s.start < byteLength front + byteLength mid) :
    IsRun (front ++ mid ++ back) s ↔ ∃ r, IsRun mid r ∧ s = r.moved (byteLength front) := by
  constructor
  · intro h
    obtain ⟨u, name, w, heq, rfl, hu, hw, hstarts, hchars⟩ := isRun_iff_append.mp h
    obtain ⟨u, x, rfl, rfl, rfl⟩ := exists_infix_of_embedded hback heq hstart hlt hchars
    refine ⟨⟨byteLength u, byteLength u + byteLength name⟩,
      isRun_iff_append.mpr ⟨u, name, x, rfl, rfl, ?_, ?_, hstarts, hchars⟩, ?_⟩
    · rw [List.getLast?_append] at hu
      cases hlast : u.getLast? with
      | none => rfl
      | some ch => rwa [hlast, Option.some_or] at hu
    · cases x with
      | nil => rfl
      | cons ch x => exact hw
    · simp only [Span.moved, byteLength_append, Nat.add_assoc]
  · rintro ⟨r, hr, rfl⟩
    obtain ⟨u, name, w, rfl, rfl, hu, hw, hstarts, hchars⟩ := isRun_iff_append.mp hr
    have hname : name ≠ [] := by
      rintro rfl
      cases hstarts
    refine isRun_iff_append.mpr ⟨front ++ u, name, w ++ back, by simp, ?_,
      any_getLast?_embedded hfront hname hchars hu, ?_, hstarts, hchars⟩
    · simp only [Span.moved, byteLength_append, Nat.add_assoc]
    · cases w with
      | cons ch w => exact hw
      | nil =>
        obtain ⟨name, last, rfl⟩ := exists_last_of_ne_nil hname
        exact any_eq_false_of_forall fun ch hch => hback last ch (by simp) hch (hchars last (by simp))

/-! ## Identifiers -/

/-- An identifier of the whole is one of a text inside that stands at `n`. -/
structure IsEmbedded (n : Nat) (i j : Identifier) : Prop where
  span : i.span = j.span.moved n
  name : i.name = j.name
  isProperty : 0 < j.span.start → i.isProperty = j.isProperty

/-- Identifiers at one place of the whole and of the text inside are one. -/
theorem isEmbedded_of_span {i j : Identifier} (hi : i ∈ identifiers (front ++ mid ++ back))
    (hj : j ∈ identifiers mid) (h : i.span = j.span.moved (byteLength front)) :
    IsEmbedded (byteLength front) i j := by
  obtain ⟨u, name, w, rfl, hspan, -⟩ := isRun_iff_append.mp (isRun_of_mem hj)
  have hwhole : front ++ (u ++ name ++ w) ++ back = (front ++ u) ++ name ++ (w ++ back) := by
    simp only [List.append_assoc]
  have hplace : i.span = ⟨byteLength (front ++ u), byteLength (front ++ u) + byteLength name⟩ := by
    rw [h, hspan, byteLength_append]
    simp only [Span.moved, Nat.add_assoc]
  refine ⟨h, String.toList_inj.mp ?_, fun hpos => ?_⟩
  · rw [← (standsIn_identifiers _ i hi).slice_eq, ← (standsIn_identifiers _ j hj).slice_eq, hplace, hspan, hwhole,
      slice_append, slice_append]
  · -- The character before the identifier is the same one.
    have hne : u ≠ [] := by
      rintro rfl
      rw [hspan] at hpos
      exact absurd hpos (Nat.lt_irrefl 0)
    obtain ⟨u, ch, rfl⟩ := exists_last_of_ne_nil hne
    have hinside : (ofText (u ++ [ch] ++ name ++ w)).Path (u ++ [ch]) ⟨byteLength (u ++ [ch]), name ++ w⟩ :=
      ⟨List.append_assoc _ _ _, (Nat.zero_add _).symm⟩
    have hpath : (ofText (front ++ (u ++ [ch] ++ name ++ w) ++ back)).Path (front ++ u ++ [ch])
        ⟨byteLength (front ++ (u ++ [ch])), name ++ w ++ back⟩ :=
      ⟨by simp [ofText], by simp [ofText]⟩
    have hj' := precededBy_of_path (on_ofText _) hinside (show Char.utf8Size '.' = 1 by decide)
    have hi' := precededBy_of_path (on_ofText _) hpath (show Char.utf8Size '.' = 1 by decide)
    rw [isProperty_eq hi, isProperty_eq hj, hplace, hspan]
    exact hi'.trans hj'.symm

variable (hfront : Sealed front) (hmid : Sealed mid)
include hfront hmid

/-- Between sealed texts a byte is hidden as it is in the text by itself. -/
theorem isHidden_embedded_iff (back : List Char) (hlt : o < byteLength mid) :
    IsHidden (front ++ mid ++ back) (byteLength front + o) ↔ IsHidden mid o := by
  rw [isHidden_iff, isHidden_iff, List.append_assoc, hiddenFrom_append hfront, hiddenFrom_append hmid, Nat.zero_add]
  constructor
  · rintro (h | h | h)
    · have := h.bounds
      omega
    · exact hiddenFrom_add.mp h
    · have := h.bounds
      omega
  · exact fun h => .inr (.inl (hiddenFrom_add.mpr h))

/-- **A sealed text behind another one has the identifiers that it has by itself**, if none runs on over
its ends. -/
theorem exists_embedded_iff (hlast : CutsNoRun front mid) (hhead : CutsNoRun mid back)
    (hstart : byteLength front ≤ s.start)
    (hlt : s.start < byteLength front + byteLength mid) :
    (∃ i ∈ identifiers (front ++ mid ++ back), i.span = s) ↔
      ∃ j ∈ identifiers mid, s = j.span.moved (byteLength front) := by
  have hword : ∀ {r : Span}, IsRun mid r → IsRun (front ++ mid ++ back) (r.moved (byteLength front)) →
      (InWord (front ++ mid ++ back) (byteLength front + r.start) ↔ InWord mid r.start) := by
    intro r hr hmoved
    have hrlt := Nat.lt_of_lt_of_le hr.lt hr.inText.bounded
    have hiff := hmoved.inWord_iff
    simp only [Span.moved] at hiff
    rw [hiff, hr.inWord_iff, isHidden_embedded_iff hfront hmid back hrlt]
  rw [exists_identifier_iff, isRun_embedded_iff hlast hhead hstart hlt]
  constructor
  · rintro ⟨⟨r, hr, rfl⟩, hin⟩
    have hmoved := (isRun_embedded_iff hlast hhead hstart hlt).mpr ⟨r, hr, rfl⟩
    obtain ⟨j, hj, rfl⟩ := exists_identifier_iff.mpr ⟨hr, (hword hr hmoved).mp hin⟩
    exact ⟨j, hj, rfl⟩
  · rintro ⟨j, hj, rfl⟩
    obtain ⟨hr, hin⟩ := exists_identifier_iff.mp ⟨j, hj, rfl⟩
    have hmoved := (isRun_embedded_iff hlast hhead hstart hlt).mpr ⟨_, hr, rfl⟩
    exact ⟨⟨_, hr, rfl⟩, (hword hr hmoved).mpr hin⟩

end Embedded

end Script

end Mdx

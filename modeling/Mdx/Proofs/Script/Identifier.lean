/-
What the identifiers of a text are: each stands where its span says, is not
empty, and is made of identifier characters only (`standsIn_identifiers`). No
blank is such a character, not even one that a word can hold, such as the
no-break space (`isIdentifierChar_of_isBlank`).
-/
import Mdx.Proofs.Script.Token
import Mdx.Proofs.Text.Span
import Mdx.Script.Identifier

namespace Mdx

/-- Ranges of the blank characters above ASCII. -/
def blankRanges : List (Nat × Nat) :=
  [(0x85, 0x85), (0xA0, 0xA0), (0x1680, 0x1680), (0x2000, 0x200A), (0x2028, 0x2029), (0x202F, 0x202F),
   (0x205F, 0x205F), (0x3000, 0x3000)]

theorem inRanges_of_isBlank {ch : Char} (h : isBlank ch = true) (hascii : ¬ ch.toNat < 0x80) :
    inRanges blankRanges ch.toNat = true := by
  simp only [isBlank, Bool.or_eq_true, Bool.and_eq_true, decide_eq_true_eq, beq_iff_eq] at h
  simp only [inRanges, blankRanges, List.any_cons, List.any_nil, Bool.or_eq_true, Bool.and_eq_true,
    decide_eq_true_eq]
  omega

/-- A code point is not in two tables whose ranges are apart. -/
theorem inRanges_eq_false {ranges others : List (Nat × Nat)} {n : Nat}
    (h : (ranges.all fun r => others.all fun o => r.2 < o.1 || o.2 < r.1) = true)
    (hn : inRanges others n = true) : inRanges ranges n = false := by
  obtain ⟨o, ho, hon⟩ := List.any_eq_true.mp hn
  refine List.any_eq_false.mpr fun r hr hrn => ?_
  have hapart := List.all_eq_true.mp (List.all_eq_true.mp h r hr) o ho
  simp only [Bool.or_eq_true, Bool.and_eq_true, decide_eq_true_eq] at hapart hon hrn
  omega

namespace Script

theorem isIdentifierChar_of_isBlank {ch : Char} (h : isBlank ch = true) : isIdentifierChar ch = false := by
  by_cases hascii : ch.toNat < 0x80
  · have hall : ∀ n < 0x80, isBlank (Char.ofNat n) = true → isIdentifierChar (Char.ofNat n) = false := by
      decide +kernel
    have hch := hall ch.toNat hascii
    rw [Char.ofNat_toNat] at hch
    exact hch h
  · have hblank := inRanges_of_isBlank h hascii
    have halphabetic : inRanges alphabeticRanges ch.toNat = false :=
      inRanges_eq_false (by decide +kernel) hblank
    have hnumber : inRanges numberRanges ch.toNat = false := inRanges_eq_false (by decide +kernel) hblank
    have hnew : inRanges [(0x11DE0, 0x11DE9)] ch.toNat = false := inRanges_eq_false (by decide) hblank
    have hsign : ∀ sign : Char, sign.toNat < 0x80 → (ch == sign) = false := by
      intro sign hsign
      refine beq_eq_false_iff_ne.mpr ?_
      rintro rfl
      exact hascii hsign
    simp [isIdentifierChar, isAlphanumeric, isAlphabetic, isNumber, hasProperty, hascii, halphabetic, hnumber,
      hnew, hsign '_' (by decide), hsign '$' (by decide)]

theorem isBlank_of_isIdentifierChar {ch : Char} (h : isIdentifierChar ch = true) : isBlank ch = false :=
  Bool.eq_false_iff.mpr fun hblank => Bool.false_ne_true ((isIdentifierChar_of_isBlank hblank).symm.trans h)

theorem isIdentifierChar_of_isIdentifierStart {ch : Char} (h : isIdentifierStart ch = true) :
    isIdentifierChar ch = true := by
  simp only [isIdentifierStart, isIdentifierChar, isAlphanumeric, Bool.or_eq_true] at h ⊢
  rcases h with (h | h) | h <;> simp [h]

/-- The name stands in the text at the identifier's span, and only identifier characters are in it. -/
structure Identifier.StandsIn (text : List Char) (i : Identifier) : Prop where
  inText : i.span.InText text
  slice_eq : slice text i.span = i.name.toList
  nonempty : i.span.start < i.span.stop
  chars : ∀ ch ∈ i.name.toList, isIdentifierChar ch = true

variable {text : List Char}

theorem standsIn_of_path {a b : Cursor} {name : List Char} (ha : a.On text) (hname : a.Path name b)
    (hne : name ≠ []) (hchars : ∀ ch ∈ name, isIdentifierChar ch = true) (isProperty : Bool) :
    Identifier.StandsIn text ⟨String.ofList name, a.spanTo b.offset, isProperty⟩ where
  inText := Span.inText_spanTo ha hname.reaches
  slice_eq := by rw [String.toList_ofList, ha.slice hname]
  nonempty := hname.lt hne
  chars := by rwa [String.toList_ofList]

/-- The identifiers of a word stand in it. -/
theorem standsIn_wordIdentifiers {c d : Cursor} {word : List Char} (hc : c.On text) (h : c.Path word d)
    (previous : Option Char) : ∀ i ∈ wordIdentifiers c.offset previous word, i.StandsIn text := by
  generalize hbase : c.offset = base
  fun_induction wordIdentifiers base previous word generalizing c with
  | case1 => simp
  | case2 base previous ch cs hstart name stop =>
    rename_i ih
    have hsplit : ch :: cs = name ++ cs.dropWhile isIdentifierChar := by
      rw [List.cons_append, List.takeWhile_append_dropWhile]
    rw [hsplit] at h
    obtain ⟨hname, hrest⟩ := h.at_length
    have hstop : (c.drop name.length).offset = stop := by rw [hname.offset, hbase]
    refine List.forall_mem_cons.mpr ⟨?_, ih (hc.reaches hname.reaches) hrest hstop⟩
    rw [← hbase, ← hstop]
    refine standsIn_of_path hc hname (List.cons_ne_nil _ _) (List.forall_mem_cons.mpr ⟨?_, ?_⟩) _
    · exact isIdentifierChar_of_isIdentifierStart (Bool.and_eq_true_iff.mp hstart).1
    · exact Cursor.forall_mem_takeWhile
  | case3 base previous ch cs _ ih =>
    obtain ⟨hfirst, hrest⟩ := Cursor.Path.at_length (show c.Path ([ch] ++ cs) d from h)
    exact ih (hc.reaches hfirst.reaches) hrest (by rw [hfirst.offset, hbase]; rfl)

/-- The identifiers of a text stand in it. -/
theorem standsIn_identifiers (text : List Char) : ∀ i ∈ identifiers text, i.StandsIn text := by
  intro i hi
  obtain ⟨t, ht, hi⟩ := List.mem_flatMap.mp hi
  have hpath : (Cursor.ofText text).Path ((tokenize text).flatMap Token.text) (.ofEnd text) := by
    rw [tokenize_flatMap_text]
    exact Cursor.path_ofEnd text
  obtain ⟨a, b, ha, hab, hspan⟩ := path_of_mem_locate hpath ht
  split at hi
  · rw [hspan] at hi
    exact standsIn_wordIdentifiers ha hab none i hi
  · cases hi

end Script

end Mdx

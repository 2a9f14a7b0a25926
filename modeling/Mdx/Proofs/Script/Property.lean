/-
Which identifiers count as properties. A word holds every point that stands
right before an identifier: the token before a word never ends in one
(`head_word_of_point`), so the character that the reader of a word looks back at
is the one before the identifier in the text, and an identifier is a property
exactly if that is a point (`isProperty_eq`).
-/
import Mdx.Proofs.Script.Identifier
import Mdx.Proofs.Script.Lookahead

namespace Mdx

open Cursor

theorem exists_last_of_ne_nil {cs : List Char} (h : cs ≠ []) : ∃ front last, cs = front ++ [last] :=
  ⟨_, _, (List.dropLast_concat_getLast h).symm⟩

/-- The character `ch` stands before a place if it is the last one on the way there. -/
theorem precededBy_of_path {text before : List Char} {a b : Cursor} {ch other : Char} (ha : a.On text)
    (h : a.Path (before ++ [ch]) b) (hother : other.utf8Size = 1) :
    precededBy text b.offset other = (ch == other) := by
  obtain ⟨hbefore, hch⟩ := Path.at_length h
  have hlast := ha.reaches hbefore.reaches
  have hpos := ch.utf8Size_pos
  have hoffset : b.offset = (a.drop before.length).offset + ch.utf8Size := by
    simpa using hch.offset
  rw [precededBy, decide_eq_true (by omega), Bool.true_and, Bool.eq_iff_iff, beq_iff_eq, beq_iff_eq]
  constructor
  · intro h
    obtain ⟨x, hx, hxo, rest, hrest⟩ := on_of_charAt? h
    -- The other character ends where `ch` ends and has one byte, so it is not before `ch`.
    obtain ⟨u, hu⟩ := hlast.reaches_of_le hx (by omega)
    obtain ⟨v, hv, hvb⟩ := hu.split hch (by omega)
    cases u with
    | nil =>
      have hsame : x = a.drop before.length := hu.eq_of_offset_eq (.refl _) (by simpa using hu.offset)
      rw [hsame, hch.rest, List.cons_append, List.cons.injEq] at hrest
      exact hrest.1
    | cons d u =>
      simp only [List.cons_append, List.cons.injEq] at hv
      obtain ⟨rfl, hnil⟩ := hv
      have := hu.offset
      simp only [byteLength_cons] at this
      omega
  · rintro rfl
    have hat := charAt?_offset hlast hch.rest
    rwa [hoffset, hother, Nat.add_sub_cancel]

namespace Script

/-! ## What stands before a word -/

/-- What string items leave: nothing, the quote, a line feed, or a backslash that escapes nothing. -/
theorem snd_splitItems (q : Char) (multiline : Bool) (cs : List Char) :
    let rest := (splitItems q multiline cs).2
    rest = [] ∨ rest.head? = some q ∨ rest.head? = some '\n' ∨ rest = ['\\'] ∨
      ∃ tail, rest = '\\' :: '\n' :: tail := by
  fun_induction splitItems q multiline cs with
  | case1 => simp
  | case2 => simp
  | case3 d cs hd =>
    simp only [Bool.and_eq_true, beq_iff_eq] at hd
    simp [hd.1]
  | case4 d cs _ a b hab ih => simpa [hab] using ih
  | case5 c cs _ _ hc =>
    simp only [Bool.or_eq_true, Bool.and_eq_true, beq_iff_eq] at hc
    rcases hc with rfl | ⟨rfl, -⟩ <;> simp
  | case6 c cs _ _ _ a b hab ih => simpa [hab] using ih

theorem isIdentifierChar_of_bracket? {ch : Char} (h : bracket? ch ≠ none) : isIdentifierChar ch = false := by
  unfold bracket? at h
  split at h <;> first | decide | exact absurd rfl h

theorem isIdentifierChar_of_quote? {ch : Char} (h : quote? ch ≠ none) : isIdentifierChar ch = false := by
  unfold quote? at h
  split at h <;> first | decide | exact absurd rfl h

theorem isIdentifierChar_of_isSpace {ch : Char} (h : isSpace ch = true) : isIdentifierChar ch = false := by
  simp only [isSpace, Bool.or_eq_true, beq_iff_eq] at h
  rcases h with (((rfl | rfl) | rfl) | rfl) | rfl <;> decide

/-- What ends a word goes on with no identifier. -/
theorem isIdentifierChar_of_not_isWordChar {ch : Char} (h : isWordChar ch = false) :
    isIdentifierChar ch = false := by
  by_cases hb : bracket? ch = none
  · by_cases hq : quote? ch = none
    · by_cases hslash : ch = '/'
      · rw [hslash]
        decide
      · exact isIdentifierChar_of_isSpace (by simpa [isWordChar, hb, hq, hslash] using h)
    · exact isIdentifierChar_of_quote? hq
  · exact isIdentifierChar_of_bracket? hb

theorem isWordChar_of_isIdentifierChar {ch : Char} (h : isIdentifierChar ch = true) : isWordChar ch = true := by
  cases hword : isWordChar ch with
  | true => rfl
  | false => exact absurd h (by simp [isIdentifierChar_of_not_isWordChar hword])

/-- Behind a run stands no character of it. -/
theorem head?_behind_run {p : Char → Bool} {cs rest : List Char} {ch : Char} (h : cs.takeWhile p ++ rest = cs)
    (hch : rest.head? = some ch) : p ch = false := by
  have hrest : rest = cs.dropWhile p := List.append_cancel_left (h.trans List.takeWhile_append_dropWhile.symm)
  have hstop := List.head?_dropWhile_not p cs
  rw [hrest] at hch
  simpa [hch] using hstop

variable {c ch last : Char} {cs rest : List Char}

theorem char_behind_quoted {kind : TokenKind} (hq : quote? c = some kind)
    (happ : (quotedToken kind c cs).text ++ rest = c :: cs)
    (hlast : (quotedToken kind c cs).text.getLast? = some last) (hword : isWordChar last = true)
    (hch : rest.head? = some ch) : isIdentifierChar ch = false := by
  have hsplit := splitItems_append c (kind == .template) cs
  have hleft := snd_splitItems c (kind == .template) cs
  unfold quotedToken at happ hlast
  generalize splitItems c (kind == .template) cs = items at hsplit hleft happ hlast
  obtain ⟨items, left⟩ := items
  simp only at hsplit hleft happ hlast
  split at hlast
  · -- The quote that closes it is in no word.
    rw [List.getLast?_concat] at hlast
    cases hlast
    simp [isWordChar, hq] at hword
  · next hopen =>
    rw [if_neg hopen, List.cons_append, List.cons.injEq, ← hsplit, List.append_cancel_left_eq] at happ
    obtain rfl := happ.2
    rcases hleft with rfl | h | h | rfl | ⟨tail, rfl⟩
    · cases hch
    · exact absurd (beq_iff_eq.mpr h) hopen
    · cases h.symm.trans hch
      decide
    · cases hch
      decide
    · cases hch
      decide

theorem char_behind_slash (happ : (slashToken cs).text ++ rest = '/' :: cs)
    (hlast : (slashToken cs).text.getLast? = some last) (hword : isWordChar last = true) (hstar : last ≠ '*')
    (hch : rest.head? = some ch) : isIdentifierChar ch = false := by
  have hslash : last ≠ '/' := by
    rintro rfl
    exact absurd hword (by decide)
  generalize ht : slashToken cs = t at happ hlast
  unfold slashToken at ht
  split at ht
  · next cs =>
    subst ht
    simp only [List.cons_append, List.cons.injEq, true_and] at happ
    have hfeed := head?_behind_run happ hch
    rw [bne_eq_false_iff_eq] at hfeed
    rw [hfeed]
    decide
  · split at ht
    · next h =>
      subst ht
      rw [List.getLast?_cons_cons, List.getLast?_cons, splitComment?_getLast? h] at hlast
      exact absurd (Option.some.inj hlast).symm hslash
    · subst ht
      exact absurd (Option.some.inj hlast).symm hstar
  · subst ht
    exact absurd (Option.some.inj hlast).symm hslash

/-- **No identifier goes on behind a token that ends as a word can.** Only words, comments and what is
malformed end so, and none of them stops before an identifier character, but for the two characters that
open a comment which never closes. -/
theorem char_behind_token (happ : (firstToken c cs).text ++ rest = c :: cs)
    (hlast : (firstToken c cs).text.getLast? = some last) (hword : isWordChar last = true) (hstar : last ≠ '*')
    (hch : rest.head? = some ch) : isIdentifierChar ch = false := by
  generalize ht : firstToken c cs = t at happ hlast
  unfold firstToken at ht
  split at ht
  · next hb =>
    subst ht
    cases hlast
    simp [isWordChar, hb] at hword
  · next kind _ hq =>
    subst ht
    exact char_behind_quoted hq happ hlast hword hch
  · split at ht
    · next hslash =>
      subst ht
      rw [beq_iff_eq.mp hslash] at happ
      exact char_behind_slash happ hlast hword hstar hch
    · split at ht
      · next hspace =>
        subst ht
        -- All of a run of whitespace is whitespace, so it does not end as a word can.
        have hblank : isSpace last = true := by
          rcases List.mem_cons.mp (List.mem_of_getLast? hlast) with rfl | hmem
          · exact hspace
          · exact forall_mem_takeWhile last hmem
        simp [isWordChar, hblank] at hword
      · subst ht
        simp only [List.cons_append, List.cons.injEq, true_and] at happ
        exact isIdentifierChar_of_not_isWordChar (head?_behind_run happ hch)

theorem start_behind_point (happ : (firstToken c cs).text ++ rest = c :: cs)
    (hpoint : (firstToken c cs).text.getLast? = some '.') (hch : rest.head? = some ch) :
    isIdentifierStart ch = false := by
  cases hstart : isIdentifierStart ch with
  | false => rfl
  | true =>
    have hnone := char_behind_token happ hpoint (by decide) (by decide) hch
    exact absurd (isIdentifierChar_of_isIdentifierStart hstart) (by simp [hnone])

/-! ## Identifiers of a word -/

/-- At a place where no point comes right before an identifier. -/
def StartsApart (text : List Char) (c : Cursor) : Prop :=
  precededBy text c.offset '.' = true → ∀ ch, c.rest.head? = some ch → isIdentifierStart ch = false

variable {text : List Char}

/-- Where a word is read on from `c` and the reader looks back at the right character, identifiers are
properties exactly right behind a point. -/
theorem property_wordIdentifiers {c d : Cursor} {word : List Char} (hc : c.On text) (h : c.Path word d)
    (previous : Option Char)
    (hprevious : ∀ ch, word.head? = some ch → isIdentifierStart ch = true →
      (previous == some '.') = precededBy text c.offset '.') :
    ∀ i ∈ wordIdentifiers c.offset previous word, i.isProperty = precededBy text i.span.start '.' := by
  generalize hbase : c.offset = base
  fun_induction wordIdentifiers base previous word generalizing c with
  | case1 => simp
  | case2 base previous ch cs hstart name stop =>
    rename_i ih
    have hsplit : ch :: cs = name ++ cs.dropWhile isIdentifierChar := by
      rw [List.cons_append, List.takeWhile_append_dropWhile]
    have hhere := hprevious ch rfl (Bool.and_eq_true_iff.mp hstart).1
    rw [hsplit] at h
    obtain ⟨hname, hrest⟩ := h.at_length
    have hstop : (c.drop name.length).offset = stop := by rw [hname.offset, hbase]
    refine List.forall_mem_cons.mpr ⟨by rw [hhere, hbase], ih (hc.reaches hname.reaches) hrest ?_ hstop⟩
    intro next _ _
    obtain ⟨front, last, hfront⟩ := exists_last_of_ne_nil (List.cons_ne_nil ch _)
    rw [show name = front ++ [last] from hfront] at hname ⊢
    rw [precededBy_of_path hc hname (by decide), List.getLast?_concat]
    rfl
  | case3 base previous ch cs _ ih =>
    obtain ⟨hfirst, hrest⟩ := Cursor.Path.at_length (show c.Path ([ch] ++ cs) d from h)
    refine ih (hc.reaches hfirst.reaches) hrest ?_ (by rw [hfirst.offset, hbase]; rfl)
    intro next _ _
    have hpath : c.Path ([] ++ [ch]) (c.drop [ch].length) := hfirst
    rw [precededBy_of_path hc hpath (by decide)]
    rfl

/-- Identifiers of the words of a text are properties exactly right behind a point. -/
theorem property_locate {c : Cursor} (hc : c.On text) (hapart : StartsApart text c) :
    ∀ t ∈ locate c.offset (tokenize c.rest), t.kind = .word →
      ∀ i ∈ wordIdentifiers t.span.start none t.text, i.isProperty = precededBy text i.span.start '.' := by
  generalize hcs : c.rest = cs
  fun_induction tokenize cs generalizing c with
  | case1 => simp [locate]
  | case2 ch cs token =>
    rename_i ih
    have happ : token.text ++ (ch :: cs).drop token.text.length = ch :: cs :=
      List.prefix_iff_eq_append.mp <| firstToken_prefix ch cs
    obtain ⟨hpath, -⟩ := Path.at_length (show c.Path (token.text ++ _) (c.drop c.rest.length) by
      rw [happ, ← hcs]
      simpa using path_drop c c.rest.length)
    have hnext := hc.reaches hpath.reaches
    have hrest : (c.drop token.text.length).rest = (ch :: cs).drop token.text.length := by rw [rest_drop, hcs]
    rw [locate, ← hpath.offset]
    refine List.forall_mem_cons.mpr ⟨fun _ => ?_, ih hnext ?_ hrest⟩
    · refine property_wordIdentifiers hc hpath none fun first hfirst hstart => ?_
      have hhead : c.rest.head? = some first := by
        rw [hcs, ← happ, List.head?_append, hfirst, Option.some_or]
      cases hpoint : precededBy text c.offset '.' with
      | false => rfl
      | true => exact absurd hstart (by simp [hapart hpoint first hhead])
    · intro hpoint first hfirst
      obtain ⟨front, last, hfront⟩ := exists_last_of_ne_nil (firstToken_text_ne_nil ch cs)
      have hlast : token.text.getLast? = some last := by
        rw [show token.text = front ++ [last] from hfront, List.getLast?_concat]
      rw [show token.text = front ++ [last] from hfront] at hpath
      rw [show token.text = front ++ [last] from hfront, precededBy_of_path hc hpath (by decide), beq_iff_eq] at hpoint
      rw [hrest] at hfirst
      rw [hpoint] at hlast
      exact start_behind_point happ hlast hfirst

theorem isProperty_eq {i : Identifier} (h : i ∈ identifiers text) :
    i.isProperty = precededBy text i.span.start '.' := by
  obtain ⟨t, ht, hi⟩ := List.mem_flatMap.mp h
  split at hi
  · next hkind =>
    have hapart : StartsApart text (ofText text) := by
      intro hpoint
      simp [precededBy, ofText] at hpoint
    exact property_locate (on_ofText text) hapart t ht hkind i hi
  · cases hi

end Script

end Mdx

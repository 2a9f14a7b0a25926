/-
Where identifiers stand. An identifier is a whole run of identifier characters
that can start one (`IsRun`), and such a run is an identifier exactly if it
starts in a word (`exists_identifier_iff`): no token but an open comment stops
where a run goes on, so the words of a text cut none (`Apart`).

Runs do not touch, so there is one identifier at a place at most, also where
its ends count as places of it (`identifierAt?_eq_some_iff`).
-/
import Mdx.Proofs.Script.Property
import Mdx.Proofs.Script.Quoted
import Mdx.Service.Script

namespace Mdx

namespace Script

open Cursor

variable {text : List Char} {s t : Span}

theorem any_eq_false_of_forall {p : Char → Bool} {found : Option Char} (h : ∀ ch, found = some ch → p ch = false) :
    found.any p = false := by
  cases found with
  | none => rfl
  | some ch => exact h ch rfl

/-- The span is a whole run of identifier characters, and its first character can start one. -/
structure IsRun (text : List Char) (s : Span) : Prop where
  fenced : s.Fenced isIdentifierChar text
  chars : ∀ ch ∈ slice text s, isIdentifierChar ch = true
  starts : (slice text s).head?.any isIdentifierStart = true

theorem IsRun.path (h : IsRun text s) : ∃ (before name : List Char) (a b : Cursor),
    (ofText text).Path before a ∧ a.Path name b ∧ s = a.spanTo b.offset ∧
      before.getLast?.any isIdentifierChar = false ∧ b.rest.head?.any isIdentifierChar = false ∧
      name.head?.any isIdentifierStart = true := by
  obtain ⟨before, name, a, b, ha, hab, rfl, hbefore, hbehind⟩ := h.fenced
  have hstarts := h.starts
  rw [On.slice ⟨before, ha⟩ hab] at hstarts
  exact ⟨before, name, a, b, ha, hab, rfl, any_eq_false_of_forall hbefore, any_eq_false_of_forall hbehind, hstarts⟩

theorem IsRun.inText (h : IsRun text s) : s.InText text := by
  obtain ⟨before, name, a, b, ha, hab, rfl, -⟩ := h.path
  exact Span.inText_spanTo ⟨before, ha⟩ hab.reaches

theorem IsRun.lt (h : IsRun text s) : s.start < s.stop := by
  obtain ⟨before, name, a, b, ha, hab, rfl, -, -, hstarts⟩ := h.path
  refine hab.lt ?_
  rintro rfl
  cases hstarts

/-- Two runs with a byte in common are one. -/
theorem IsRun.eq_of_contains (hs : IsRun text s) (ht : IsRun text t) {o : Nat} (ho : s.contains o = true)
    (ho' : t.contains o = true) : s = t := by
  have within : ∀ {u v : Span}, IsRun text u → IsRun text v → u.contains o = true → v.contains o = true →
      v.Within u := fun hu hv huo hvo =>
    (hu.fenced.within_or_disjoint hv.inText hv.chars).resolve_right fun hdisjoint => hdisjoint o ⟨huo, hvo⟩
  obtain ⟨hstart, hstop⟩ := within hs ht ho ho'
  obtain ⟨hstart', hstop'⟩ := within ht hs ho' ho
  cases s
  cases t
  simp only [Span.mk.injEq] at *
  omega

/-- Behind a run stands no other one without something between them. -/
theorem IsRun.stop_ne_start (hs : IsRun text s) (ht : IsRun text t) : s.stop ≠ t.start := by
  intro heq
  obtain ⟨before, name, a, b, ha, hab, rfl, -, hbehind, -⟩ := hs.path
  obtain ⟨before', name', a', b', ha', hab', rfl, -, -, hstarts⟩ := ht.path
  obtain rfl : b = a' := (ha.trans hab).eq_of_offset_eq ha' heq
  cases name' with
  | nil => cases hstarts
  | cons ch name' =>
    rw [hab'.rest, List.cons_append, List.head?_cons, Option.any_some,
      isIdentifierChar_of_isIdentifierStart hstarts] at hbehind
    cases hbehind

/-! ## Runs of a word -/

/-- A place that no run of identifier characters goes on over. -/
structure Apart (text : List Char) (c : Cursor) : Prop where
  on : c.On text
  apart : ∀ before last ch, (ofText text).Path (before ++ [last]) c → isIdentifierChar last = true →
    c.rest.head? = some ch → isIdentifierChar ch = false

/-- The character before the place, as far as it is an identifier character, is `previous`. -/
def LooksBack (text : List Char) (c : Cursor) (previous : Option Char) : Prop :=
  ∀ before ch, (ofText text).Path before c → c.rest.head? = some ch → isIdentifierChar ch = true →
    previous.any isIdentifierChar = before.getLast?.any isIdentifierChar

theorem Apart.looksBack {c : Cursor} (h : Apart text c) : LooksBack text c none := by
  intro before ch hbefore hch hchar
  cases hlast : before.getLast? with
  | none => rfl
  | some last =>
    obtain ⟨front, rfl⟩ := List.getLast?_eq_some_iff.mp hlast
    cases hlastChar : isIdentifierChar last with
    | false => simp [hlastChar]
    | true => exact absurd hchar (by simp [h.apart front last ch hbefore hlastChar hch])

/-- The last character before a place is the last one of a path to it. -/
theorem getLast?_of_path {c d : Cursor} {before read : List Char} (hc : c.On text) (h : c.Path read d)
    (hne : read ≠ []) (hbefore : (ofText text).Path before d) : before.getLast? = read.getLast? := by
  obtain ⟨front, hfront⟩ := hc
  obtain ⟨v, rfl, hv⟩ := hfront.split hbefore h.le
  obtain rfl : v = read := List.append_cancel_right (hv.rest.symm.trans h.rest)
  obtain ⟨last, hlast⟩ := Option.isSome_iff_exists.mp (List.getLast?_isSome.mpr hne)
  rw [List.getLast?_append, hlast, Option.some_or]

theorem looksBack_of_path {c d : Cursor} {read : List Char} (hc : c.On text) (h : c.Path read d)
    (hne : read ≠ []) : LooksBack text d read.getLast? := by
  intro before ch hbefore _ _
  rw [getLast?_of_path hc h hne hbefore]

/-- An identifier that is read at a place is a run, if the word does not cut it at its end. -/
theorem isRun_of_read {c d e : Cursor} {ch : Char} {cs : List Char} {previous : Option Char}
    (hc : c.On text) (hback : LooksBack text c previous) (hstart : isIdentifierStart ch = true)
    (hprevious : previous.any isIdentifierChar = false)
    (hname : c.Path (ch :: cs.takeWhile isIdentifierChar) d) (hrest : d.Path (cs.dropWhile isIdentifierChar) e)
    (he : Apart text e) : IsRun text (c.spanTo d.offset) := by
  obtain ⟨before, hbefore⟩ := hc
  have hchars : ∀ x ∈ ch :: cs.takeWhile isIdentifierChar, isIdentifierChar x = true :=
    List.forall_mem_cons.mpr ⟨isIdentifierChar_of_isIdentifierStart hstart, forall_mem_takeWhile⟩
  have hslice : slice text (c.spanTo d.offset) = ch :: cs.takeWhile isIdentifierChar :=
    On.slice ⟨before, hbefore⟩ hname
  refine ⟨⟨before, _, c, d, hbefore, hname, rfl, fun last hlast => ?_, fun next hnext => ?_⟩, ?_, ?_⟩
  · have heq := hback before ch hbefore (by rw [hname.rest]; rfl) (hchars ch List.mem_cons_self)
    rw [hprevious, hlast] at heq
    exact heq.symm
  · have hdrop := List.head?_dropWhile_not isIdentifierChar cs
    rw [hrest.rest] at hnext
    cases hleft : cs.dropWhile isIdentifierChar with
    | cons first left =>
      rw [hleft] at hnext hdrop
      cases hnext
      simpa using hdrop
    | nil =>
      -- The word ends with the name, and no run goes on over its end.
      rw [hleft] at hrest hnext
      obtain rfl : d = e := by
        have := hrest.drop_length
        rwa [List.length_nil, drop_zero] at this
      obtain ⟨front, last, hsplit⟩ := exists_last_of_ne_nil (List.cons_ne_nil ch (cs.takeWhile isIdentifierChar))
      rw [hsplit] at hname hchars
      exact he.apart (before ++ front) last next (by
        rw [List.append_assoc]
        exact hbefore.trans hname) (hchars last (by simp)) hnext
  · rwa [hslice]
  · rw [hslice]
    exact hstart

/-- Where a run starts, the reader of a word starts an identifier. -/
theorem IsRun.starts_at {c : Cursor} {ch : Char} {previous : Option Char} (hs : IsRun text s) (hc : c.On text)
    (hback : LooksBack text c previous) (hhead : c.rest.head? = some ch) (h : s.start = c.offset) :
    isIdentifierStart ch = true ∧ previous.any isIdentifierChar = false := by
  obtain ⟨before, name, a, b, ha, hab, rfl, hbefore, -, hstarts⟩ := hs.path
  obtain ⟨front, hfront⟩ := hc
  obtain rfl : a = c := ha.eq_of_offset_eq hfront h
  have hstart : isIdentifierStart ch = true := by
    cases name with
    | nil => cases hstarts
    | cons x name =>
      rw [hab.rest] at hhead
      cases hhead
      exact hstarts
  exact ⟨hstart, (hback before ch ha hhead (isIdentifierChar_of_isIdentifierStart hstart)).trans hbefore⟩

/-- The identifiers of a word between two places that cut no run are the runs that start in it. -/
theorem exists_wordIdentifiers_iff {c d : Cursor} {word : List Char} {previous : Option Char}
    (hc : c.On text) (h : c.Path word d) (hd : Apart text d) (hback : LooksBack text c previous) :
    (∃ i ∈ wordIdentifiers c.offset previous word, i.span = s) ↔
      IsRun text s ∧ c.offset ≤ s.start ∧ s.start < d.offset := by
  generalize hbase : c.offset = base
  fun_induction wordIdentifiers base previous word generalizing c with
  | case1 base previous =>
    have := h.offset
    simp only [byteLength_nil] at this
    simp only [List.not_mem_nil, false_and, exists_false, false_iff]
    omega
  | case2 base previous ch cs hstart name stop =>
    rename_i ih
    have hsplit : ch :: cs = name ++ cs.dropWhile isIdentifierChar := by
      rw [List.cons_append, List.takeWhile_append_dropWhile]
    rw [hsplit] at h
    obtain ⟨hname, hrest⟩ := h.at_length
    have hstop : (c.drop name.length).offset = stop := by rw [hname.offset, hbase]
    obtain ⟨hfirst, hprevious⟩ := Bool.and_eq_true_iff.mp hstart
    have hrun : IsRun text ⟨base, stop⟩ := by
      rw [← hbase, ← hstop]
      exact isRun_of_read hc hback hfirst (by simpa using hprevious) hname hrest hd
    have ih := ih (hc.reaches hname.reaches) hrest (looksBack_of_path hc hname (List.cons_ne_nil ch _)) hstop
    have hle := hrest.le
    have hlt : base < stop := hrun.lt
    simp only [List.mem_cons, or_and_right, exists_or, exists_eq_left, ih]
    constructor
    · rintro (rfl | ⟨hs, hle', hlt'⟩)
      · exact ⟨hrun, Nat.le_refl base, by simp only; omega⟩
      · exact ⟨hs, by omega, hlt'⟩
    · rintro ⟨hs, hle', hlt'⟩
      by_cases hbehind : stop ≤ s.start
      · exact .inr ⟨hs, hbehind, hlt'⟩
      · refine .inl (hrun.eq_of_contains hs (o := s.start) ?_ ?_)
        · exact Span.contains_iff.mpr ⟨hle', Nat.lt_of_not_le hbehind⟩
        · exact Span.contains_iff.mpr ⟨Nat.le_refl _, hs.lt⟩
  | case3 base previous ch cs hstart ih =>
    obtain ⟨hfirst, hrest⟩ := Path.at_length (show c.Path ([ch] ++ cs) d from h)
    have hoffset : (c.drop [ch].length).offset = base + ch.utf8Size := by
      rw [hfirst.offset, hbase]
      rfl
    have ih := ih (hc.reaches hfirst.reaches) hrest (looksBack_of_path hc hfirst (List.cons_ne_nil ch _)) hoffset
    rw [ih]
    refine and_congr_right fun hs => and_congr_left fun hlt => ⟨fun hle => by omega, fun hle => ?_⟩
    have hne : s.start ≠ base := fun heq => by
      have hhead : c.rest.head? = some ch := by
        rw [hfirst.rest]
        rfl
      obtain ⟨hchar, hprevious⟩ := hs.starts_at hc hback hhead (heq.trans hbase.symm)
      simp [hchar, hprevious] at hstart
    -- So the run starts behind the character.
    obtain ⟨_, _, a, _, ha, _, rfl, -⟩ := hs.path
    obtain ⟨front, hfront⟩ := hc
    have hlt : c.offset < a.offset := hbase ▸ Nat.lt_of_le_of_ne hle hne.symm
    obtain ⟨u, hu⟩ := Reaches.of_le hfront.reaches ha.reaches (Nat.le_of_lt hlt)
    exact hbase ▸ (hu.head_mem hfirst.rest hlt).2

/-! ## Runs of a text -/

theorem apart_ofText (text : List Char) : Apart text (ofText text) where
  on := on_ofText text
  apart before last ch h := absurd (h.lt (by simp)) (Nat.lt_irrefl _)

/-- A token ends where no run goes on. -/
theorem apart_behind_token {c d : Cursor} {ch : Char} {cs : List Char} (hc : c.On text)
    (hrest : c.rest = ch :: cs) (h : c.Path (firstToken ch cs).text d) : Apart text d where
  on := hc.reaches h.reaches
  apart before last next hbefore hlast hnext := by
    have hend := getLast?_of_path hc h (firstToken_text_ne_nil ch cs) hbefore
    rw [List.getLast?_concat] at hend
    have hstar : last ≠ '*' := by
      rintro rfl
      exact absurd hlast (by decide)
    exact char_behind_token (h.rest.symm.trans hrest) hend.symm (isWordChar_of_isIdentifierChar hlast) hstar hnext

/-- A token stands between two places that cut no run. -/
theorem apart_of_mem_locate {c : Cursor} (hc : Apart text c) :
    ∀ t ∈ locate c.offset (tokenize c.rest), ∃ a b : Cursor, Apart text a ∧ Apart text b ∧
      a.Path t.text b ∧ t.span = a.spanTo b.offset := by
  generalize hcs : c.rest = cs
  fun_induction tokenize cs generalizing c with
  | case1 => simp [locate]
  | case2 ch cs token =>
    rename_i ih
    have happ : token.text ++ (ch :: cs).drop token.text.length = ch :: cs :=
      List.prefix_iff_eq_append.mp <| firstToken_prefix ch cs
    obtain ⟨hpath, -⟩ := Path.at_length (show c.Path (token.text ++ _) (c.drop c.rest.length) by
      rw [happ, ← hcs]
      simpa using path_drop c c.rest.length)
    have hnext := apart_behind_token hc.on hcs hpath
    have hrest : (c.drop token.text.length).rest = (ch :: cs).drop token.text.length := by rw [rest_drop, hcs]
    rw [locate, ← hpath.offset]
    exact List.forall_mem_cons.mpr ⟨⟨c, _, hc, hnext, hpath, rfl⟩, ih hnext hrest⟩

/-- The byte at the offset is one of a word. -/
def InWord (text : List Char) (o : Nat) : Prop :=
  ∃ t ∈ locate 0 (tokenize text), t.kind = .word ∧ t.span.contains o = true

instance (text : List Char) (o : Nat) : Decidable (InWord text o) :=
  inferInstanceAs (Decidable (∃ t ∈ locate 0 (tokenize text), _))

/-- **The identifiers of a text are the runs that start in a word.** -/
theorem exists_identifier_iff :
    (∃ i ∈ identifiers text, i.span = s) ↔ IsRun text s ∧ InWord text s.start := by
  have hword : ∀ t ∈ locate 0 (tokenize text),
      ((∃ i ∈ wordIdentifiers t.span.start none t.text, i.span = s) ↔
        IsRun text s ∧ t.span.contains s.start = true) := by
    intro t ht
    obtain ⟨a, b, ha, hb, hab, hspan⟩ := apart_of_mem_locate (apart_ofText text) t ht
    rw [hspan, Span.contains_iff]
    exact exists_wordIdentifiers_iff ha.on hab hb ha.looksBack
  simp only [identifiers, List.mem_flatMap]
  constructor
  · rintro ⟨i, ⟨t, ht, hi⟩, hspan⟩
    split at hi
    · next hkind =>
      obtain ⟨hrun, hcontains⟩ := (hword t ht).mp ⟨i, hi, hspan⟩
      exact ⟨hrun, t, ht, hkind, hcontains⟩
    · cases hi
  · rintro ⟨hrun, t, ht, hkind, hcontains⟩
    obtain ⟨i, hi, hspan⟩ := (hword t ht).mpr ⟨hrun, hcontains⟩
    exact ⟨i, ⟨t, ht, by rwa [if_pos hkind]⟩, hspan⟩

theorem isRun_of_mem {i : Identifier} (h : i ∈ identifiers text) : IsRun text i.span :=
  (exists_identifier_iff.mp ⟨i, h, rfl⟩).1

/-! ## What is no code -/

/-- A token of this kind holds text that is no code: a comment, a string, or one that never closes. -/
def TokenKind.hides : TokenKind → Bool
  | lineComment | blockComment | doubleQuoted | singleQuoted | template | malformed => true
  | _ => false

/-- The byte at the offset is one of a comment or of a string. -/
def IsHidden (text : List Char) (o : Nat) : Prop :=
  ∃ t ∈ locate 0 (tokenize text), t.kind.hides = true ∧ t.span.contains o = true

instance (text : List Char) (o : Nat) : Decidable (IsHidden text o) :=
  inferInstanceAs (Decidable (∃ t ∈ locate 0 (tokenize text), _))

/-- A token that is neither a word nor hides its text has no identifier character in it. -/
theorem notChar_of_firstToken {c : Char} {cs : List Char} (hword : (firstToken c cs).kind ≠ .word)
    (hhides : (firstToken c cs).kind.hides = false) :
    ∀ ch ∈ (firstToken c cs).text, isIdentifierChar ch = false := by
  revert hword hhides
  unfold firstToken
  split
  · next hb =>
    intro _ _
    exact List.forall_mem_singleton.mpr (isIdentifierChar_of_bracket? (by simp [hb]))
  · next kind _ hq =>
    intro _ hhides
    have hstring : (quotedToken kind c cs).kind.hides = true := by
      have hkind := quote?_isString hq
      rcases quotedToken_kind kind c cs with heq | heq
      · rw [heq]
        revert hkind
        cases kind <;> simp [TokenKind.isString, TokenKind.hides]
      · rw [heq]
        rfl
    rw [hstring] at hhides
    cases hhides
  · split
    · intro _ hhides
      revert hhides
      unfold slashToken
      split
      · exact fun h => Bool.noConfusion h
      · split <;> exact fun h => Bool.noConfusion h
      · exact fun _ => List.forall_mem_singleton.mpr (by decide)
    · split
      · next hspace =>
        exact fun _ _ => List.forall_mem_cons.mpr
          ⟨isIdentifierChar_of_isSpace hspace, fun ch hch => isIdentifierChar_of_isSpace (forall_mem_takeWhile ch hch)⟩
      · exact fun h => absurd rfl h

/-- Each byte of a text is one of a token. -/
theorem exists_mem_locate {base o : Nat} {ts : List Token} (hle : base ≤ o)
    (hlt : o < base + byteLength (ts.flatMap Token.text)) : ∃ t ∈ locate base ts, t.span.contains o = true := by
  induction ts generalizing base with
  | nil => simp at hlt; omega
  | cons t ts ih =>
    rw [List.flatMap_cons, byteLength_append] at hlt
    by_cases h : o < base + byteLength t.text
    · exact ⟨_, List.mem_cons_self, Span.contains_iff.mpr ⟨hle, h⟩⟩
    · have hbehind : base + byteLength t.text ≤ o := by omega
      obtain ⟨u, hu, hcontains⟩ := ih hbehind (by omega)
      exact ⟨u, List.mem_cons_of_mem _ hu, hcontains⟩

/-- An identifier character is in a word exactly if it is not hidden. -/
theorem inWord_iff {o : Nat} {ch : Char} (hat : charAt? text o = some ch) (hch : isIdentifierChar ch = true) :
    InWord text o ↔ ¬ IsHidden text o := by
  constructor
  · rintro ⟨t, ht, hword, hto⟩ ⟨u, hu, hhides, huo⟩
    refine disjoint_of_kind ht hu ?_ o ⟨hto, huo⟩
    rintro heq
    rw [← heq, hword] at hhides
    cases hhides
  · intro hhidden
    obtain ⟨x, hx, rfl, rest, hrest⟩ := on_of_charAt? hat
    have hlt : x.offset < 0 + byteLength ((tokenize text).flatMap Token.text) := by
      have := lt_of_charAt? hat
      rwa [tokenize_flatMap_text, Nat.zero_add]
    obtain ⟨t, ht, hcontains⟩ := exists_mem_locate (Nat.zero_le _) hlt
    by_cases hword : t.kind = .word
    · exact ⟨t, ht, hword, hcontains⟩
    · -- Else the token would hold its text, or have no such character.
      have hhides : t.kind.hides = false := by
        cases h : t.kind.hides with
        | false => rfl
        | true => exact absurd ⟨t, ht, h, hcontains⟩ hhidden
      obtain ⟨a, b, ha, -, hab, hspan⟩ := apart_of_mem_locate (apart_ofText text) t ht
      rw [hspan, Span.contains_iff] at hcontains
      obtain ⟨hlo, hhi⟩ := hcontains
      obtain ⟨u, hu⟩ := ha.on.reaches_of_le hx hlo
      obtain ⟨v, hv, hxb⟩ := hu.split hab (Nat.le_of_lt hhi)
      have hmem : ch ∈ t.text := hv ▸ List.mem_append_right _ (hxb.head_mem hrest hhi).1
      obtain ⟨c, cs, hfirst⟩ := exists_firstToken_of_mem (mem_of_mem_locate ht)
      have hnone : ∀ ch ∈ (firstToken c cs).text, isIdentifierChar ch = false :=
        notChar_of_firstToken (by rwa [hfirst]) (by rwa [hfirst])
      rw [hfirst] at hnone
      rw [hnone ch hmem] at hch
      cases hch

theorem charAt?_of_slice {ch : Char} (h : s.InText text) (hch : (slice text s).head? = some ch) :
    charAt? text s.start = some ch := by
  obtain ⟨a, b, t, ha, ht, rfl⟩ := h.path
  rw [ha.slice ht] at hch
  obtain ⟨t, rfl⟩ := List.head?_eq_some_iff.mp hch
  exact charAt?_offset ha ht.rest

theorem IsRun.charAt? (h : IsRun text s) : ∃ ch, charAt? text s.start = some ch ∧ isIdentifierChar ch = true := by
  cases hhead : (slice text s).head? with
  | none =>
    have hstarts := h.starts
    rw [hhead] at hstarts
    cases hstarts
  | some ch => exact ⟨ch, charAt?_of_slice h.inText hhead, h.chars ch (List.mem_of_head? hhead)⟩

/-- A run is an identifier exactly if it is not hidden. -/
theorem IsRun.inWord_iff (h : IsRun text s) : InWord text s.start ↔ ¬ IsHidden text s.start := by
  obtain ⟨ch, hat, hch⟩ := h.charAt?
  exact Script.inWord_iff hat hch

/-! ## The order of identifiers -/

theorem wordIdentifiers_pairwise (base : Nat) (previous : Option Char) (cs : List Char) :
    (wordIdentifiers base previous cs).Pairwise fun i j => i.span.stop ≤ j.span.start := by
  fun_induction wordIdentifiers base previous cs with
  | case1 => exact .nil
  | case2 base previous c cs _ name stop ih =>
    exact .cons (fun j hj => (within_wordIdentifiers _ _ _ j hj).start_le) ih
  | case3 base previous c cs _ ih => exact ih

/-- Identifiers come in the order of their places, and something is between two of them. -/
theorem identifiers_pairwise (text : List Char) :
    (identifiers text).Pairwise fun i j => i.span.stop < j.span.start := by
  have hle : (identifiers text).Pairwise fun i j => i.span.stop ≤ j.span.start := by
    refine List.pairwise_flatMap.mpr ⟨fun t _ => ?_, (locate_pairwise 0 _).imp_of_mem fun ht hu htu i hi j hj => ?_⟩
    · split
      · exact wordIdentifiers_pairwise _ _ _
      · exact .nil
    · split at hi <;> split at hj
      · have hi := (within_wordIdentifiers _ _ _ i hi).le_stop
        have hj := (within_wordIdentifiers _ _ _ j hj).start_le
        have ht := (le_of_mem_locate ht).2
        simp only at hi hj
        omega
      all_goals first | cases hi | cases hj
  refine hle.imp_of_mem fun hi hj hij => ?_
  have := (isRun_of_mem hi).stop_ne_start (isRun_of_mem hj)
  omega

/-- Identifiers that have a place in common, their ends among it, are one. -/
theorem identifier_eq_of_touching {i j : Identifier} {o : Nat} (hi : i ∈ identifiers text)
    (hj : j ∈ identifiers text) (hio : i.span.start ≤ o ∧ o ≤ i.span.stop)
    (hjo : j.span.start ≤ o ∧ o ≤ j.span.stop) : i = j := by
  have hapart : (identifiers text).Pairwise fun x y => x.span.stop < y.span.start ∨ y.span.stop < x.span.start :=
    (identifiers_pairwise text).imp .inl
  have : Std.Symm fun x y : Identifier => x.span.stop < y.span.start ∨ y.span.stop < x.span.start :=
    ⟨fun _ _ hxy => hxy.symm⟩
  refine Classical.byContradiction fun hne => ?_
  have := hapart.forall hi hj hne
  omega

end Script

open Script

namespace ScriptService

variable {text : List Char}

/-- An offset is in or at an end of one identifier at most. -/
theorem identifierAt?_eq_some_iff {o : Nat} {i : Identifier} :
    identifierAt? (identifiers text) o = some i ↔
      i ∈ identifiers text ∧ i.span.start ≤ o ∧ o ≤ i.span.stop := by
  constructor
  · intro h
    have hi := List.find?_some h
    simp only [Bool.and_eq_true, decide_eq_true_eq] at hi
    exact ⟨List.mem_of_find?_eq_some h, hi⟩
  · rintro ⟨hi, hle⟩
    cases hfind : identifierAt? (identifiers text) o with
    | none => exact absurd (List.find?_eq_none.mp hfind i hi) (by simp [hle])
    | some j =>
      have hj := List.find?_some hfind
      simp only [Bool.and_eq_true, decide_eq_true_eq] at hj
      rw [identifier_eq_of_touching hi (List.mem_of_find?_eq_some hfind) hle hj]

end ScriptService

end Mdx

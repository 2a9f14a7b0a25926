/-
An opening tag is read back from its text. What `Written` allows is what the
readers accept: each of them, put at the start of such a text, stops at its end
and gives what is written there, whatever is before it and behind it. So a tag is
told from its own characters (`read_decomposes`).
-/
import Mdx.Proofs.Tag.Written

namespace Mdx.Tag

open Cursor

variable {lt c d next : Cursor} {o : Nat} {a : Attribute} {attributes : List Attribute} {selfClosing : Bool}
  {text : List Char} {tag : Tag}

theorem readValue_of_written {v : AttributeValue} (hp : c.Path text d) (h : ValueWritten c.offset v text) :
    readValue lt c = .ok (v, d) := by
  cases h with
  | @literal q body hquote hbody =>
    have hrest : c.rest = q :: (body ++ q :: d.rest) := by simpa using hp.rest
    have hsign : (q == '\x22' || q == '\x27') = true := by simpa using hquote
    have hdrop : c.drop (body.length + 2) = d := by simpa using hp.drop_length
    simp only [readValue, hrest, hsign, takeWhile_ne hbody, hdrop]
    simp
  | expression hbraced =>
    obtain ⟨rest, htext⟩ := hbraced.exists_rest
    obtain ⟨place, hclose, hplace⟩ := Script.closingBrace_of_braced hp hbraced
    have hrest : c.rest = '\x7b' :: (rest ++ d.rest) := by rw [hp.rest, htext]; rfl
    have hnext : place.drop 1 = d := hplace.drop_length
    simp only [readValue, hrest, hclose]
    show Except.ok (AttributeValue.expression (c.spanTo (place.drop 1).offset), place.drop 1) = _
    rw [hnext, spanTo, hp.offset]

/-- A name that is followed by no further character of it is read back. -/
theorem readName_of_path {name : List Char} (hp : c.Path name d) (hname : IsName name)
    (hd : Breaks isNameChar d.rest) : readName c = (String.ofList name, d) := by
  rw [readName, hp.takeWhile_eq hname.chars hd, hp.skipWhile_eq hname.chars hd]

theorem skipBlanks_of_path {blanks : List Char} {ch : Char} {rest : List Char} (hp : c.Path blanks d)
    (hblanks : Blanks blanks) (hrest : d.rest = ch :: rest) (hch : isBlank ch = false) : c.skipBlanks = d := by
  refine hp.skipWhile_eq hblanks ?_
  intro first hfirst
  rw [hrest] at hfirst
  cases hfirst
  exact hch

theorem breaks_of_blanks {blanks : List Char} {ch : Char} (hblanks : Blanks blanks) (hch : isNameChar ch = false)
    (rest : List Char) : Breaks isNameChar (blanks ++ ch :: rest) := by
  intro first hfirst
  cases blanks with
  | nil =>
    cases hfirst
    exact hch
  | cons blank blanks =>
    cases hfirst
    exact isNameChar_of_isBlank (hblanks _ (by simp))

theorem ValueWritten.exists_first {v : AttributeValue} (h : ValueWritten o v text) :
    ∃ ch rest, text = ch :: rest ∧ isBlank ch = false := by
  cases h with
  | literal hquote _ =>
    refine ⟨_, _, rfl, ?_⟩
    rcases hquote with rfl | rfl <;> decide
  | expression hbraced =>
    obtain ⟨rest, rfl⟩ := hbraced.exists_rest
    exact ⟨_, _, rfl, by decide⟩

/-- One attribute is read back if nothing behind it would be read as a part of it. -/
theorem readAttribute_of_written (lt : Cursor) (hp : c.Path text d) (h : AttributeWritten c.offset a text)
    (hbare : a.IsBare → Breaks isNameChar d.rest ∧ d.skipBlanks.rest.head? ≠ some '=') :
    ∃ ch rest, text = ch :: rest ∧
      (ch = '\x7b' ∧ readSpread c = .ok (a, d) ∨ isNameStart ch = true ∧ readAttribute lt c = .ok (a, d)) := by
  cases h with
  | bare hname =>
    obtain ⟨hends, hequals⟩ := hbare ⟨_, rfl⟩
    have hread := readName_of_path hp hname hends
    obtain ⟨ch, rest, rfl, hch⟩ := hname.exists_first
    refine ⟨ch, rest, rfl, .inr ⟨hch, ?_⟩⟩
    simp only [readAttribute, hread, beq_iff_eq, if_neg hequals, spanTo, hp.offset]
  | @valued name before after text value hname hbefore hafter hvalue =>
    obtain ⟨place, hplace, htext⟩ := hp.of_append
    obtain ⟨equals, hequals, hsign⟩ := hplace.of_append
    obtain ⟨nameEnd, hnameEnd, hblanks⟩ := hequals.of_append
    have hrest : equals.rest = '=' :: (after ++ place.rest) := hsign.rest
    obtain ⟨behind, hbehind, hblanks'⟩ := Path.of_append (t := ['=']) hsign
    obtain ⟨first, later, hfirst, hblank⟩ := hvalue.exists_first
    have hread := readName_of_path hnameEnd hname (by
      rw [hblanks.rest, hrest]
      exact breaks_of_blanks hbefore (by decide) _)
    have hskip := skipBlanks_of_path hblanks hbefore hrest (by decide)
    have hskip' : behind.skipBlanks = place :=
      skipBlanks_of_path hblanks' hafter (by rw [htext.rest, hfirst]; rfl) hblank
    have hsome : (equals.rest.head? == some '=') = true := by rw [hrest]; rfl
    have hdrop : equals.drop 1 = behind := hbehind.drop_length
    have hvalue' : readValue lt place = .ok (value, d) :=
      readValue_of_written htext (hplace.offset ▸ hvalue)
    obtain ⟨ch, rest, rfl, hch⟩ := hname.exists_first
    refine ⟨ch, _, rfl, .inr ⟨hch, ?_⟩⟩
    simp only [readAttribute, hread, hskip, hsome, hdrop, hskip', hvalue', if_true]
    show Except.ok (Attribute.mk _ (c.spanTo d.offset), d) = _
    rw [spanTo, hp.offset]
  | @spread body isEmpty hbraced hdots =>
    refine ⟨_, _, rfl, .inl ⟨rfl, ?_⟩⟩
    obtain ⟨place, hclose, hplace⟩ := Script.closingBrace_of_braced hp hbraced
    have hnext : place.drop 1 = d := hplace.drop_length
    have hbody : (c.drop 1).Path body place := by
      obtain ⟨body', hbody, -, hwhole⟩ := Script.closingBrace_body hclose hp.rest
      rw [hnext] at hwhole
      have hsame := hwhole.upTo.symm.trans hp.upTo
      simp only [List.cons_append, List.cons.injEq, true_and, List.append_cancel_right_eq] at hsame
      rwa [hsame] at hbody
    simp only [readSpread, hclose]
    show (if "...".toList.isPrefixOf (trimLeft ((c.drop 1).upTo place.offset)) = true then _ else _) = _
    rw [hbody.upTo, if_pos (List.isPrefixOf_iff_prefix.mpr hdots), hnext, spanTo, hp.offset]
    rfl

/-- The attributes of a tag and its end are read back wherever they stand. -/
theorem readAttributes_of_written {fuel : Nat} (h : AttributesWritten o attributes selfClosing text)
    (hp : c.Path text d) (ho : c.offset = o) (hfuel : c.skipBlanks.rest.length ≤ fuel) :
    readAttributes lt (fuel + 1) c = .ok (attributes, selfClosing, d) := by
  induction h generalizing c fuel with
  | @stop o blanks hblanks =>
    obtain ⟨mid, hmid, hlast⟩ := hp.of_append
    have hskip := skipBlanks_of_path hmid hblanks hlast.rest (by decide)
    have hdrop : mid.drop 1 = d := hlast.drop_length
    simp only [readAttributes, attributesRound, hskip, hlast.rest, List.singleton_append, hdrop]
    rfl
  | @selfClosing o blanks between hblanks hbetween =>
    obtain ⟨angle, hangle, hlast⟩ := hp.of_append
    obtain ⟨slash, hslash, hbehind⟩ := hangle.of_append
    obtain ⟨behind, hone, hblanks'⟩ := Path.of_append (t := ['/']) hbehind
    have hskip := skipBlanks_of_path hslash hblanks hbehind.rest (by decide)
    have hskip' := skipBlanks_of_path hblanks' hbetween hlast.rest (by decide)
    have hdrop : slash.drop 1 = behind := hone.drop_length
    have hdrop' : angle.drop 1 = d := hlast.drop_length
    simp only [readAttributes, attributesRound, hskip, hbehind.rest, List.cons_append, hdrop, hskip', hlast.rest,
      hdrop']
    rfl
  | @cons o a attributes selfClosing blanks text later hblanks hfirst hbare hlater ih =>
    obtain ⟨next, hnext, hbehind⟩ := hp.of_append
    obtain ⟨mid, hmid, htext⟩ := hnext.of_append
    obtain ⟨front, sign, rest, hfront, hblanks', hblank, hequals⟩ := hlater.front
    -- Behind the attribute the blanks end at a character that is no equals sign.
    have hends : a.IsBare → Breaks isNameChar next.rest ∧ next.skipBlanks.rest.head? ≠ some '=' := by
      intro h
      rw [hfront] at hbehind hbare
      obtain ⟨place, hplace, hsign⟩ := hbehind.of_append
      rw [skipBlanks_of_path hplace hblanks' hsign.rest hblank, hbehind.rest, hsign.rest]
      exact ⟨(hbare h).append (by simp) _, by simpa using hequals⟩
    rw [← ho, ← hmid.offset] at hfirst
    obtain ⟨ch, rest', rfl, hread⟩ := readAttribute_of_written lt htext hfirst hends
    have hrest : mid.rest = ch :: (rest' ++ next.rest) := htext.rest
    have hstart : ch = '\x7b' ∨ isNameStart ch = true := hread.imp And.left And.left
    have hskip : c.skipBlanks = mid := by
      refine skipBlanks_of_path hmid hblanks hrest ?_
      rcases hstart with rfl | hname
      · decide
      · exact isBlank_of_isNameStart hname
    have hlater' : readAttributes lt fuel next = .ok (attributes, selfClosing, d) := by
      have hshorter := (path_skipWhile next isBlank).length_le
      have hlength := htext.length_lt (by simp)
      rw [hskip] at hfuel
      obtain ⟨fuel, rfl⟩ : ∃ n, fuel = n + 1 := ⟨fuel - 1, by omega⟩
      refine ih hbehind (by rw [hnext.offset, ho]) ?_
      show (next.skipWhile isBlank).rest.length ≤ fuel
      omega
    simp only [readAttributes, attributesRound, hskip, hrest]
    rcases hread with ⟨rfl, hread⟩ | ⟨hname, hread⟩
    · simp only [hread]
      show (readAttributes lt fuel next >>= fun found => pure (a :: found.1, found.2.1, found.2.2)) = _
      rw [hlater']
      rfl
    · have hangle : (ch == '>') = false := ne_of_isNameStart hname (by decide)
      have hslash : (ch == '/') = false := ne_of_isNameStart hname (by decide)
      have hbrace : (ch == '\x7b') = false := ne_of_isNameStart hname (by decide)
      simp only [hangle, hslash, hbrace, hname, hread]
      show (readAttributes lt fuel next >>= fun found => pure (a :: found.1, found.2.1, found.2.2)) = _
      rw [hlater']
      rfl

/-- An opening tag with a name is read back wherever it stands. -/
theorem read_of_written (hp : lt.Path text d) (h : Written lt.offset tag text) : read lt = .ok (tag, d) := by
  cases h with
  | @opening lead name later attributes selfClosing hblanks hname hends hwritten =>
    obtain ⟨nameEnd, hnameEnd, hlater⟩ := hp.of_append
    obtain ⟨first, hfirst, hnamed⟩ := hnameEnd.of_append
    obtain ⟨behind, hone, hlead⟩ := Path.of_append (t := ['<']) hfirst
    have hends' : Breaks isNameChar nameEnd.rest := by
      rw [hlater.rest]
      exact hends.append hwritten.ne_nil _
    have hread := readName_of_path hnamed hname hends'
    obtain ⟨ch, rest, rfl, hch⟩ := hname.exists_first
    have hrest : first.rest = ch :: (rest ++ nameEnd.rest) := hnamed.rest
    have hdrop : lt.drop 1 = behind := hone.drop_length
    have hskip := skipBlanks_of_path hlead hblanks hrest (isBlank_of_isNameStart hch)
    have hclosing : (first.rest.head? == some '/') = false := by
      rw [hrest]
      exact ne_of_isNameStart hch (by decide)
    have htagName : readTagName lt first = .ok (some (String.ofList (ch :: rest)), nameEnd.skipBlanks) := by
      have hangle : (ch == '>') = false := ne_of_isNameStart hch (by decide)
      simp only [readTagName, hrest, hangle, hch, hread]
      rfl
    have hattributes : readAttributes lt (nameEnd.skipBlanks.rest.length + 1) nameEnd.skipBlanks =
        .ok (attributes, selfClosing, d) := by
      rw [readAttributes_skipBlanks]
      exact readAttributes_of_written hwritten hlater hnameEnd.offset (Nat.le_refl _)
    simp only [read, hdrop, hskip, hclosing]
    show (readTagName lt first >>= _) = _
    rw [htagName]
    show (readAttributes lt (nameEnd.skipBlanks.rest.length + 1) nameEnd.skipBlanks >>= _) = _
    rw [hattributes]
    show Except.ok (Tag.mk _ _ _ _ (lt.spanTo d.offset), d) = _
    rw [spanTo, hp.offset]

/-- **What an opening tag is.** It is the bracket, blanks, the name, the attributes in order with
nothing but blanks between them, and the end with its slash if and only if it closes itself. The
attributes are apart and in order inside it, braces end where the brace that closes them does, and the
tag is told from its own text. -/
theorem read_decomposes {cs : List Char} {name : String} (hlt : charAt? cs o = some '<')
    (h : read (.atOffset cs o) = .ok (tag, next)) (hopening : tag.closing = false)
    (hname : tag.name = some name) :
    tag.span = ⟨o, next.offset⟩ ∧ Written o tag (slice cs tag.span) ∧
    tag.attributes.Pairwise (fun a b => a.span.stop ≤ b.span.start) ∧
    (∀ a ∈ tag.attributes, o < a.span.start ∧ a.span.start < a.span.stop ∧ a.span.stop < tag.span.stop ∧
      AttributeWritten a.span.start a (slice cs a.span)) ∧
    (∀ a ∈ tag.attributes, ∀ s, a.braces? = some s → charAt? cs s.start = some '\x7b' ∧
      ∃ close, Script.closingBrace (.atOffset cs s.start) = .ok close ∧ s.stop = close.place.offset + 1) ∧
    ∀ before other, byteLength before = o →
      read (.atOffset (before ++ slice cs tag.span ++ other) o) = .ok (tag, ⟨tag.span.stop, other⟩) := by
  obtain ⟨lt, hon, rfl, rest, hrest⟩ := on_of_charAt? hlt
  rw [hon.atOffset_eq] at h
  obtain ⟨text, hp, hwritten⟩ := written_of_read hrest h hopening hname
  have hspan : tag.span = lt.spanTo next.offset := (read_ok h).2.1
  have hslice : slice cs tag.span = text := hspan ▸ hon.slice hp
  -- The places where an attribute starts and stops.
  have place : ∀ a ∈ tag.attributes, ∃ (x y : Cursor) (t : List Char), x.On cs ∧ x.Path t y ∧ AttributeWritten x.offset a t ∧
      a.span = x.spanTo y.offset ∧ lt.offset < x.offset ∧ y.offset < next.offset := by
    intro a ha
    obtain ⟨front, t, back, rfl, hattribute, hfront, hback⟩ := hwritten.of_mem ha
    obtain ⟨y, hy, hbehind⟩ := hp.of_append
    obtain ⟨x, hx, ht⟩ := hy.of_append
    rw [← hx.offset] at hattribute
    refine ⟨x, y, t, hon.reaches hx.reaches, ht, hattribute, ?_, hx.lt hfront, hbehind.lt hback⟩
    rw [hattribute.span_eq, spanTo, ht.offset]
  refine ⟨hspan, hslice ▸ hwritten, hwritten.pairwise, ?_, ?_, ?_⟩
  · intro a ha
    obtain ⟨x, y, t, hx, ht, hattribute, heq, hfirst, hlast⟩ := place a ha
    rw [heq, hx.slice ht, hspan]
    exact ⟨hfirst, ht.lt hattribute.ne_nil, hlast, hattribute⟩
  · intro a ha s hs
    obtain ⟨x, y, t, hx, ht, hattribute, -, -, -⟩ := place a ha
    obtain ⟨front, braces, isEmpty, rfl, hbraced, rfl⟩ := hattribute.braced hs
    obtain ⟨z, hz, hbraces⟩ := ht.of_append
    obtain ⟨close, hclose, hplace⟩ := Script.closingBrace_of_braced hbraces hbraced
    obtain ⟨rest', rfl⟩ := hbraced.exists_rest
    have hzon := hx.reaches hz.reaches
    rw [← hz.offset, ← ht.offset]
    refine ⟨charAt?_offset hzon hbraces.rest, ⟨close, isEmpty⟩, ?_, hplace.offset⟩
    rw [hzon.atOffset_eq]
    exact hclose
  · intro before other hbefore
    have hstop : tag.span.stop = lt.offset + byteLength text := by rw [hspan, ← hp.offset]; rfl
    rw [hslice, hstop]
    refine read_of_written ⟨?_, rfl⟩ hwritten
    rw [atOffset, ← hbefore, List.append_assoc, dropBytes_append]

/-- A tag with an attribute of each kind. -/
theorem read_decomposes_kinds : ∃ cs tag next,
    cs = "x< a.b c = \x22d>\x22 \x7b ...e\x7df=\x7b'\x7d'\x7d g / >y".toList ∧ charAt? cs 1 = some '<' ∧
      read (.atOffset cs 1) = .ok (tag, next) ∧ tag.name = some "a.b" ∧ tag.selfClosing = true ∧
      tag.attributes.map Attribute.span = [⟨7, 15⟩, ⟨16, 23⟩, ⟨23, 30⟩, ⟨31, 32⟩] ∧
      Written 1 tag (slice cs ⟨1, 36⟩) ∧
      ∀ before other, byteLength before = 1 →
        read (.atOffset (before ++ slice cs ⟨1, 36⟩ ++ other) 1) = .ok (tag, ⟨36, other⟩) := by
  obtain ⟨⟨tag, next⟩, hread⟩ : ∃ found, read
      (.atOffset "x< a.b c = \x22d>\x22 \x7b ...e\x7df=\x7b'\x7d'\x7d g / >y".toList 1) = .ok found :=
    exists_ok (by decide +kernel)
  have hfound : (read (.atOffset
      "x< a.b c = \x22d>\x22 \x7b ...e\x7df=\x7b'\x7d'\x7d g / >y".toList 1)).toOption.map (fun found =>
        (found.1.closing, found.1.name, found.1.selfClosing, found.1.attributes.map Attribute.span, found.1.span)) =
      some (false, some "a.b", true, [⟨7, 15⟩, ⟨16, 23⟩, ⟨23, 30⟩, ⟨31, 32⟩], ⟨1, 36⟩) := by
    decide +kernel
  rw [hread] at hfound
  simp only [Except.toOption, Option.map_some, Option.some.injEq, Prod.mk.injEq] at hfound
  obtain ⟨hopening, hname, hself, hspans, hspan⟩ := hfound
  obtain ⟨-, hwritten, -, -, -, hlocal⟩ := read_decomposes (by decide) hread hopening hname
  rw [hspan] at hwritten hlocal
  exact ⟨_, tag, next, rfl, by decide, hread, hname, hself, hspans, hwritten, hlocal⟩

end Mdx.Tag

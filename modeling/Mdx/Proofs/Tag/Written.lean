/-
What an opening tag is, as a text: a bracket, blanks, the name, the attributes
with nothing but blanks between them, and the end. `Written` says so with the
offset at which the text stands, since attributes keep their spans.

An opening tag that is read is such a text (`written_of_read`), and where its
attributes stand follows from that alone.
-/
import Mdx.Proofs.Script.Matching
import Mdx.Proofs.Tag

namespace Mdx

/-- The braces of an attribute: those around its value, or around what it spreads. -/
def Attribute.braces? (a : Attribute) : Option Span :=
  match a.kind with
  | .named _ (some (.expression s)) => some s
  | .named _ _ => none
  | .spread s => some s

/-- The attribute is a name and nothing else. -/
def Attribute.IsBare (a : Attribute) : Prop := ∃ name, a.kind = .named name none

/-- Nothing but blanks. -/
def Blanks (t : List Char) : Prop := ∀ ch ∈ t, isBlank ch = true

/-- A run of `p` does not go on into this text. -/
def Breaks (p : Char → Bool) (t : List Char) : Prop := ∀ ch, t.head? = some ch → p ch = false

theorem Breaks.of_append {p : Char → Bool} {t u : List Char} (h : Breaks p (t ++ u)) : Breaks p t := by
  intro ch hch
  refine h ch ?_
  rw [List.head?_append, hch]
  rfl

theorem Breaks.append {p : Char → Bool} {t : List Char} (h : Breaks p t) (ht : t ≠ []) (u : List Char) :
    Breaks p (t ++ u) := by
  obtain ⟨first, rest, rfl⟩ := List.exists_cons_of_ne_nil ht
  exact h

namespace Cursor

variable {c d : Cursor} {t u : List Char} {p : Char → Bool}

/-- The place between the two parts of a path. -/
theorem Path.of_append (h : c.Path (t ++ u) d) : ∃ mid, c.Path t mid ∧ mid.Path u d :=
  ⟨_, h.at_length⟩

/-- The run at the cursor, by what stands there and what is behind it. -/
theorem Path.takeWhile_eq (h : c.Path t d) (ht : ∀ ch ∈ t, p ch = true) (hd : Breaks p d.rest) :
    c.rest.takeWhile p = t := by
  rw [h.rest, List.takeWhile_append_of_pos ht]
  cases hrest : d.rest with
  | nil => simp
  | cons ch rest => simp [hd ch (by rw [hrest]; rfl)]

theorem Path.skipWhile_eq (h : c.Path t d) (ht : ∀ ch ∈ t, p ch = true) (hd : Breaks p d.rest) :
    c.skipWhile p = d := by
  rw [skipWhile, h.takeWhile_eq ht hd, h.drop_length]

theorem breaks_skipWhile (c : Cursor) (p : Char → Bool) : Breaks p (c.skipWhile p).rest := by
  intro ch hch
  rw [rest_skipWhile] at hch
  have hstop := List.head?_dropWhile_not p c.rest
  rw [hch] at hstop
  simpa using hstop

theorem path_skipBlanks (c : Cursor) : ∃ b, c.Path b c.skipBlanks ∧ Blanks b :=
  ⟨_, path_skipWhile c isBlank, forall_mem_takeWhile⟩

theorem skipBlanks_skipBlanks (c : Cursor) : c.skipBlanks.skipBlanks = c.skipBlanks :=
  (Path.refl _).skipWhile_eq (by simp) (breaks_skipWhile c isBlank)

end Cursor

namespace Tag

open Cursor

/-! ## The parts of a tag -/

/-- A name: all its characters can stand in one, and the first one can start it. -/
structure IsName (t : List Char) : Prop where
  start : ∃ ch, t.head? = some ch ∧ isNameStart ch = true
  chars : ∀ ch ∈ t, isNameChar ch = true

/-- The text of a value that stands at the offset `o`. -/
inductive ValueWritten (o : Nat) : AttributeValue → List Char → Prop
  | literal {q : Char} {body : List Char} :
    q = '\x22' ∨ q = '\x27' → q ∉ body →
    ValueWritten o (.literal (String.ofList body)) (q :: (body ++ [q]))
  | expression {text : List Char} {isEmpty : Bool} :
    Script.Braced text isEmpty → ValueWritten o (.expression ⟨o, o + byteLength text⟩) text

/-- The text of an attribute that stands at the offset `o`. -/
inductive AttributeWritten (o : Nat) : Attribute → List Char → Prop
  | bare {name : List Char} :
    IsName name → AttributeWritten o ⟨.named (String.ofList name) none, ⟨o, o + byteLength name⟩⟩ name
  | valued {name before after text : List Char} {value : AttributeValue} :
    IsName name → Blanks before → Blanks after →
    ValueWritten (o + byteLength (name ++ before ++ '=' :: after)) value text →
    AttributeWritten o
      ⟨.named (String.ofList name) (some value), ⟨o, o + byteLength (name ++ before ++ '=' :: after ++ text)⟩⟩
      (name ++ before ++ '=' :: after ++ text)
  | spread {body : List Char} {isEmpty : Bool} :
    Script.Braced ('\x7b' :: body ++ ['\x7d']) isEmpty → "...".toList <+: trimLeft body →
    AttributeWritten o
      ⟨.spread ⟨o, o + byteLength ('\x7b' :: body ++ ['\x7d'])⟩,
        ⟨o, o + byteLength ('\x7b' :: body ++ ['\x7d'])⟩⟩
      ('\x7b' :: body ++ ['\x7d'])

/-- The text behind the name of a tag, up to its end, that stands at the offset `o`: the attributes in
order, and whether the tag closes itself. -/
inductive AttributesWritten : Nat → List Attribute → Bool → List Char → Prop
  | stop {o : Nat} {blanks : List Char} :
    Blanks blanks → AttributesWritten o [] false (blanks ++ ['>'])
  | selfClosing {o : Nat} {blanks between : List Char} :
    Blanks blanks → Blanks between → AttributesWritten o [] true (blanks ++ '/' :: between ++ ['>'])
  | cons {o : Nat} {a : Attribute} {attributes : List Attribute} {selfClosing : Bool}
    {blanks text later : List Char} :
    Blanks blanks → AttributeWritten (o + byteLength blanks) a text → (a.IsBare → Breaks isNameChar later) →
    AttributesWritten (o + byteLength (blanks ++ text)) attributes selfClosing later →
    AttributesWritten o (a :: attributes) selfClosing (blanks ++ text ++ later)

/-- The text of an opening tag with a name that stands at the offset `o`. -/
inductive Written (o : Nat) : Tag → List Char → Prop
  | opening {lead name later : List Char} {attributes : List Attribute} {selfClosing : Bool} :
    Blanks lead → IsName name → Breaks isNameChar later →
    AttributesWritten (o + byteLength ('<' :: lead ++ name)) attributes selfClosing later →
    Written o
      ⟨false, some (String.ofList name), attributes, selfClosing,
        ⟨o, o + byteLength ('<' :: lead ++ name ++ later)⟩⟩
      ('<' :: lead ++ name ++ later)

variable {lt c d next : Cursor} {o : Nat} {a : Attribute} {attributes : List Attribute} {selfClosing : Bool}
  {text : List Char} {tag : Tag}

/-! ## What is read is written so -/

theorem isName_readName {ch : Char} {rest : List Char} (hrest : c.rest = ch :: rest)
    (hch : isNameStart ch = true) : IsName (c.rest.takeWhile isNameChar) where
  start := ⟨ch, by rw [hrest, List.takeWhile_cons_of_pos (isNameChar_of_isNameStart hch)]; rfl, hch⟩
  chars := forall_mem_takeWhile

theorem takeWhile_ne {q : Char} {body tail : List Char} (h : q ∉ body) :
    (body ++ q :: tail).takeWhile (· != q) = body := by
  rw [List.takeWhile_append_of_pos, List.takeWhile_cons_of_neg (by simp), List.append_nil]
  intro ch hch
  refine bne_iff_ne.mpr ?_
  rintro rfl
  exact h hch

theorem valueWritten_of_read {v : AttributeValue} (h : readValue lt c = .ok (v, next)) :
    ∃ text, c.Path text next ∧ ValueWritten c.offset v text := by
  unfold readValue at h
  split at h
  · cases h
  next q rest hrest =>
  split at h
  · next hquote =>
    split at h
    · next hcontains =>
      cases h
      obtain ⟨body, tail, rfl, hbody⟩ := List.eq_append_cons_of_mem (List.contains_iff_mem.mp hcontains)
      rw [takeWhile_ne hbody]
      refine ⟨q :: (body ++ [q]), ?_, .literal (by simpa using hquote) hbody⟩
      simpa [hrest, List.take_append, List.take_of_length_le] using path_drop c (body.length + 2)
    · cases h
  split at h
  · next hbrace =>
    obtain ⟨close, hclose, h⟩ := ok_of_bind h
    cases h
    rw [beq_iff_eq.mp hbrace] at hrest
    obtain ⟨text, hp, hbraced⟩ := Script.braced_of_closingBrace hrest hclose
    refine ⟨text, hp, ?_⟩
    rw [spanTo, hp.offset]
    exact .expression hbraced
  · cases h

theorem attributeWritten_of_read {ch : Char} {rest : List Char} (hrest : c.rest = ch :: rest)
    (hch : isNameStart ch = true) (h : readAttribute lt c = .ok (a, next)) :
    ∃ text, c.Path text next ∧ AttributeWritten c.offset a text ∧ (a.IsBare → Breaks isNameChar next.rest) := by
  have hname := isName_readName hrest hch
  have hnameEnd : c.Path (c.rest.takeWhile isNameChar) (readName c).2 := path_skipWhile c isNameChar
  unfold readAttribute at h
  dsimp only at h
  split at h
  · next hequals =>
    obtain ⟨⟨value, next'⟩, hvalue, h⟩ := ok_of_bind h
    cases h
    obtain ⟨before, hbefore, hblanks⟩ := path_skipBlanks (readName c).2
    obtain ⟨tail, hsign⟩ := List.head?_eq_some_iff.mp (beq_iff_eq.mp hequals)
    obtain ⟨after, hafter, hblanks'⟩ := path_skipBlanks ((readName c).2.skipBlanks.drop 1)
    obtain ⟨text, htext, hwritten⟩ := valueWritten_of_read hvalue
    have hvaluePlace : c.Path (c.rest.takeWhile isNameChar ++ before ++ '=' :: after)
        ((readName c).2.skipBlanks.drop 1).skipBlanks := by
      simpa using (hnameEnd.trans hbefore).trans ((path_cons hsign).trans hafter)
    have hwhole := hvaluePlace.trans htext
    refine ⟨_, hwhole, ?_, ?_⟩
    · rw [spanTo, hwhole.offset]
      exact .valued hname hblanks hblanks' (hvaluePlace.offset ▸ hwritten)
    · rintro ⟨name, hbare⟩
      cases hbare
  · cases h
    refine ⟨_, hnameEnd, ?_, fun _ => breaks_skipWhile c isNameChar⟩
    rw [spanTo, hnameEnd.offset]
    exact .bare hname

theorem spreadWritten_of_read {rest : List Char} (hrest : c.rest = '\x7b' :: rest)
    (h : readSpread c = .ok (a, next)) :
    ∃ text, c.Path text next ∧ AttributeWritten c.offset a text ∧ (a.IsBare → Breaks isNameChar next.rest) := by
  unfold readSpread at h
  obtain ⟨close, hclose, h⟩ := ok_of_bind h
  obtain ⟨body, hbody, -, hwhole⟩ := Script.closingBrace_body hclose hrest
  obtain ⟨text, hp, hbraced⟩ := Script.braced_of_closingBrace hrest hclose
  have htext : text = '\x7b' :: body ++ ['\x7d'] := hp.upTo.symm.trans hwhole.upTo
  subst htext
  dsimp only at h
  rw [hbody.upTo] at h
  split at h
  · next hdots =>
    cases h
    refine ⟨_, hp, ?_, ?_⟩
    · rw [spanTo, hp.offset]
      exact .spread hbraced (List.isPrefixOf_iff_prefix.mp hdots)
    · rintro ⟨name, hbare⟩
      cases hbare
  · cases h

/-- The attributes that are read, and the end of the tag, are what stands there. -/
theorem attributesWritten_of_read {fuel : Nat}
    (h : readAttributes lt fuel c = .ok (attributes, selfClosing, next)) :
    ∃ text, c.Path text next ∧ AttributesWritten c.offset attributes selfClosing text := by
  induction fuel generalizing c attributes selfClosing with
  | zero => cases h
  | succ fuel ih =>
    obtain ⟨blanks, hblanks, hall⟩ := path_skipBlanks c
    simp only [readAttributes, attributesRound] at h
    split at h
    · cases h
    next ch rest hrest =>
    split at h
    · next hangle =>
      cases h
      rw [beq_iff_eq.mp hangle] at hrest
      exact ⟨_, hblanks.trans (path_cons hrest), .stop hall⟩
    split at h
    · next hslash =>
      rw [beq_iff_eq.mp hslash] at hrest
      obtain ⟨between, hbetween, hall'⟩ := path_skipBlanks (c.skipBlanks.drop 1)
      split at h
      · cases h
      next other rest' hrest' =>
      split at h
      · next hangle =>
        cases h
        rw [beq_iff_eq.mp hangle] at hrest'
        refine ⟨blanks ++ '/' :: between ++ ['>'], ?_, .selfClosing hall hall'⟩
        simpa using (hblanks.trans ((path_cons hrest).trans hbetween)).trans (path_cons hrest')
      · cases h
    -- One attribute, and those behind it by induction.
    have proceed : ∀ {first : Attribute} {mid : Cursor} {later : List Attribute} {self' : Bool},
        (∃ text, c.skipBlanks.Path text mid ∧ AttributeWritten c.skipBlanks.offset first text ∧
          (first.IsBare → Breaks isNameChar mid.rest)) →
        readAttributes lt fuel mid = .ok (later, self', next) →
        ∃ text, c.Path text next ∧ AttributesWritten c.offset (first :: later) self' text := by
      intro first mid later self' hfirst hlater
      obtain ⟨text, htext, hwritten, hbare⟩ := hfirst
      obtain ⟨behind, hbehind, hrest'⟩ := ih hlater
      have hmid := hblanks.trans htext
      rw [hmid.offset] at hrest'
      rw [hblanks.offset] at hwritten
      rw [hbehind.rest] at hbare
      exact ⟨_, hmid.trans hbehind, .cons hall hwritten (fun h => (hbare h).of_append) hrest'⟩
    split at h
    · next hstart =>
      split at h
      · next hbrace =>
        rw [beq_iff_eq.mp hbrace] at hrest
        obtain ⟨⟨first, mid⟩, hfirst, h⟩ := ok_of_bind h
        obtain ⟨⟨later, self', stop⟩, hlater, h⟩ := ok_of_bind h
        cases h
        exact proceed (spreadWritten_of_read hrest hfirst) hlater
      · next hbrace =>
        have hname : isNameStart ch = true := by simpa [hbrace] using hstart
        obtain ⟨⟨first, mid⟩, hfirst, h⟩ := ok_of_bind h
        obtain ⟨⟨later, self', stop⟩, hlater, h⟩ := ok_of_bind h
        cases h
        exact proceed (attributeWritten_of_read hrest hname hfirst) hlater
    · cases h

theorem readAttributes_skipBlanks (lt : Cursor) (fuel : Nat) (c : Cursor) :
    readAttributes lt fuel c.skipBlanks = readAttributes lt fuel c := by
  cases fuel with
  | zero => rfl
  | succ fuel => simp only [readAttributes, attributesRound, skipBlanks_skipBlanks]

theorem readTagName_eq_some {name : String} (h : readTagName lt c = .ok (some name, next)) :
    ∃ t nameEnd, c.Path t nameEnd ∧ IsName t ∧ name = String.ofList t ∧ Breaks isNameChar nameEnd.rest ∧
      next = nameEnd.skipBlanks := by
  unfold readTagName at h
  split at h
  · cases h
  next ch rest hrest =>
  split at h
  · cases h
  split at h
  · next hch =>
    cases h
    exact ⟨_, _, path_skipWhile c isNameChar, isName_readName hrest hch, rfl, breaks_skipWhile c isNameChar, rfl⟩
  · cases h

/-- An opening tag with a name that is read is what stands there. -/
theorem written_of_read {rest : List Char} {name : String} (hlt : lt.rest = '<' :: rest)
    (h : read lt = .ok (tag, next)) (hopening : tag.closing = false) (hname : tag.name = some name) :
    ∃ text, lt.Path text next ∧ Written lt.offset tag text := by
  unfold read at h
  obtain ⟨⟨name', behind⟩, hread, h⟩ := ok_of_bind h
  dsimp only at h hread
  split at h
  · next hbare =>
    obtain ⟨next', -, h⟩ := ok_of_bind h
    cases h
    dsimp only at hopening hname
    simp [hopening, hname] at hbare
  · next hbare =>
    obtain ⟨⟨attributes, selfClosing, next'⟩, hattributes, h⟩ := ok_of_bind h
    cases h
    dsimp only at hname
    subst hname
    have hclosing : ((lt.drop 1).skipBlanks.rest.head? == some '/') = false := by simpa using hbare
    rw [hclosing] at hread
    obtain ⟨t, nameEnd, hp, ht, rfl, hends, rfl⟩ := readTagName_eq_some hread
    rw [readAttributes_skipBlanks] at hattributes
    obtain ⟨later, hlater, hwritten⟩ := attributesWritten_of_read hattributes
    obtain ⟨lead, hlead, hblanks⟩ := path_skipBlanks (lt.drop 1)
    have hnameEnd : lt.Path ('<' :: lead ++ t) nameEnd := ((path_cons hlt).trans hlead).trans hp
    have hwhole := hnameEnd.trans hlater
    rw [hlater.rest] at hends
    rw [hnameEnd.offset] at hwritten
    refine ⟨_, hwhole, ?_⟩
    rw [spanTo, hwhole.offset]
    exact .opening hblanks ht hends.of_append hwritten

/-! ## Where the attributes stand -/

theorem ne_of_isNameStart {ch sign : Char} (h : isNameStart ch = true) (hsign : isNameStart sign = false) :
    (ch == sign) = false := by
  refine beq_eq_false_iff_ne.mpr ?_
  rintro rfl
  rw [h] at hsign
  cases hsign

theorem IsName.exists_first {name : List Char} (h : IsName name) :
    ∃ ch rest, name = ch :: rest ∧ isNameStart ch = true := by
  obtain ⟨ch, hhead, hch⟩ := h.start
  obtain ⟨rest, rfl⟩ := List.head?_eq_some_iff.mp hhead
  exact ⟨ch, rest, rfl, hch⟩

theorem AttributeWritten.exists_first (h : AttributeWritten o a text) :
    ∃ ch rest, text = ch :: rest ∧ (ch = '\x7b' ∨ isNameStart ch = true) := by
  cases h with
  | bare hname =>
    obtain ⟨ch, rest, rfl, hch⟩ := hname.exists_first
    exact ⟨ch, rest, rfl, .inr hch⟩
  | valued hname _ _ _ =>
    obtain ⟨ch, rest, rfl, hch⟩ := hname.exists_first
    exact ⟨ch, _, rfl, .inr hch⟩
  | spread _ _ => exact ⟨_, _, rfl, .inl rfl⟩

/-- What is behind the blanks before the attributes: the end of the tag, or the next attribute. -/
theorem AttributesWritten.front (h : AttributesWritten o attributes selfClosing text) :
    ∃ blanks ch rest, text = blanks ++ ch :: rest ∧ Blanks blanks ∧ isBlank ch = false ∧ ch ≠ '=' := by
  cases h with
  | stop hblanks => exact ⟨_, _, _, rfl, hblanks, by decide, by decide⟩
  | @selfClosing _ blanks between hblanks _ =>
    exact ⟨blanks, '/', between ++ ['>'], by simp, hblanks, by decide, by decide⟩
  | @cons _ a _ _ blanks text later hblanks hfirst _ _ =>
    obtain ⟨ch, rest, rfl, hch⟩ := hfirst.exists_first
    refine ⟨blanks, ch, rest ++ later, by simp, hblanks, ?_⟩
    rcases hch with rfl | hch
    · decide
    · exact ⟨isBlank_of_isNameStart hch, beq_eq_false_iff_ne.mp (ne_of_isNameStart hch (by decide))⟩

theorem AttributesWritten.ne_nil (h : AttributesWritten o attributes selfClosing text) : text ≠ [] := by
  obtain ⟨blanks, ch, rest, rfl, -⟩ := h.front
  simp

theorem AttributeWritten.span_eq (h : AttributeWritten o a text) : a.span = ⟨o, o + byteLength text⟩ := by
  cases h <;> rfl

theorem AttributeWritten.ne_nil (h : AttributeWritten o a text) : text ≠ [] := by
  obtain ⟨ch, rest, rfl, -⟩ := h.exists_first
  simp

/-- The braces of an attribute stand at its end. -/
theorem AttributeWritten.braced (h : AttributeWritten o a text) {s : Span} (hs : a.braces? = some s) :
    ∃ front t isEmpty, text = front ++ t ∧ Script.Braced t isEmpty ∧
      s = ⟨o + byteLength front, o + byteLength text⟩ := by
  cases h with
  | bare _ => cases hs
  | @valued name before after t value _ _ _ hvalue =>
    cases hvalue with
    | literal _ _ => cases hs
    | @expression _ isEmpty hbraced =>
      cases hs
      refine ⟨_, t, isEmpty, rfl, hbraced, ?_⟩
      rw [byteLength_append _ t, Nat.add_assoc]
  | @spread body isEmpty hbraced _ =>
    cases hs
    exact ⟨[], _, isEmpty, rfl, hbraced, rfl⟩

/-- Each attribute has its own part of the text, and the end of the tag is behind it. -/
theorem AttributesWritten.of_mem (h : AttributesWritten o attributes selfClosing text) (ha : a ∈ attributes) :
    ∃ front t back, text = front ++ t ++ back ∧ AttributeWritten (o + byteLength front) a t ∧ back ≠ [] := by
  induction h with
  | stop _ => cases ha
  | selfClosing _ _ => cases ha
  | @cons o first attributes selfClosing blanks t later _ hfirst _ hlater ih =>
    rcases List.mem_cons.mp ha with rfl | ha
    · exact ⟨blanks, t, later, rfl, hfirst, hlater.ne_nil⟩
    · obtain ⟨front, t', back, rfl, hwritten, hback⟩ := ih ha
      refine ⟨blanks ++ t ++ front, t', back, by simp, ?_, hback⟩
      rw [byteLength_append (blanks ++ t), ← Nat.add_assoc]
      exact hwritten

theorem AttributesWritten.pairwise (h : AttributesWritten o attributes selfClosing text) :
    attributes.Pairwise fun a b => a.span.stop ≤ b.span.start := by
  induction h with
  | stop _ => exact .nil
  | selfClosing _ _ => exact .nil
  | @cons o first attributes selfClosing blanks t later _ hfirst _ hlater ih =>
    refine .cons (fun b hb => ?_) ih
    obtain ⟨front, t', back, -, hwritten, -⟩ := hlater.of_mem hb
    rw [hfirst.span_eq, hwritten.span_eq]
    simp only [byteLength_append]
    omega

theorem Written.pairwise (h : Written o tag text) :
    tag.attributes.Pairwise fun a b => a.span.stop ≤ b.span.start := by
  cases h with
  | opening _ _ _ hwritten => exact hwritten.pairwise

theorem Written.of_mem (h : Written o tag text) (ha : a ∈ tag.attributes) :
    ∃ front t back, text = front ++ t ++ back ∧ AttributeWritten (o + byteLength front) a t ∧
      front ≠ [] ∧ back ≠ [] := by
  cases h with
  | @opening lead name later _ _ _ _ _ hwritten =>
    obtain ⟨front, t, back, rfl, hattribute, hback⟩ := hwritten.of_mem ha
    refine ⟨'<' :: lead ++ name ++ front, t, back, by simp, ?_, by simp, hback⟩
    rw [byteLength_append _ front, ← Nat.add_assoc]
    exact hattribute

end Tag

end Mdx

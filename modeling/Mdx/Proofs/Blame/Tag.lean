/-
Errors are blamed on the text. The span of an error lies between two places of
the text and is not empty; if something was not closed, the span is the one
character that opened it (`ParseError.Blamed`).

A reader is put together from readers, so its errors are theirs (`Answers.bind`)
or its own. This module goes through the readers of script and of one tag.
-/
import Mdx.Proofs.Tag

namespace Mdx

open Cursor

/-- The character that opened what was not closed. -/
def Cause.opener? : Cause → Option Char
  | unclosedExpression => some '\x7b'
  | unclosedTag .. | unexpectedEnd _ => some '<'
  | unclosedQuote quote => some quote
  | _ => none

/-- An angle bracket of the text. -/
structure AngleAt (cs : List Char) (lt : Cursor) : Prop where
  on : lt.On cs
  stands : ∃ rest, lt.rest = '<' :: rest

/-- What the character at `a` opens is left open, and that is what the error says: the brace has none
that closes it, the value in quotes runs to the end of the text and the tag it stands in with it, the
text ends inside the tag, or the tag is whole and waits for one that closes it. -/
def ParseError.LeftOpen (cs : List Char) (a : Cursor) (e : ParseError) : Prop :=
  match e.cause with
  | .unclosedExpression => Script.closingBrace a = .error e
  | .unclosedQuote quote =>
    quote ∉ (a.drop 1).rest ∧ ∃ lt, AngleAt cs lt ∧ lt.Reaches a ∧ Tag.read lt = .error e
  | .unexpectedEnd _ => Tag.read a = .error e
  | .unclosedTag display _ => ∃ tag next, Tag.read a = .ok (tag, next) ∧ tag.closing = false ∧
      tag.selfClosing = false ∧ tag.display = display
  | _ => True

/-- The error is blamed on a part of the text, and if something was not closed, on the one byte of the
character that opened it. -/
def ParseError.Blamed (cs : List Char) (e : ParseError) : Prop :=
  ∃ (a b : Cursor) (t : List Char), a.On cs ∧ a.Path t b ∧ t ≠ [] ∧ e.span = a.spanTo b.offset ∧
    ∀ ch, e.cause.opener? = some ch → t = [ch] ∧ ch.utf8Size = 1 ∧ e.LeftOpen cs a

/-- What a reader gives has `P`, and an error of it has `E`. -/
inductive Answers (E : ParseError → Prop) {α : Type} (P : α → Prop) : Except ParseError α → Prop
  | ok {a : α} : P a → Answers E P (.ok a)
  | error {e : ParseError} : E e → Answers E P (.error e)

/-- The errors of a reader are blamed on the text. -/
abbrev Blames (cs : List Char) {α : Type} (x : Except ParseError α) : Prop :=
  Answers (ParseError.Blamed cs) (fun _ => True) x

variable {cs : List Char} {E : ParseError → Prop}

theorem Answers.bind {α β : Type} {P : α → Prop} {Q : β → Prop} {x : Except ParseError α}
    {f : α → Except ParseError β} (hx : Answers E P x)
    (hf : ∀ a, x = .ok a → P a → Answers E Q (f a)) : Answers E Q (x >>= f) := by
  cases hx with
  | ok ha => exact hf _ rfl ha
  | error he => exact .error he

theorem Answers.bind_true {α β : Type} {Q : β → Prop} {x : Except ParseError α} {f : α → Except ParseError β}
    (hx : Answers E (fun _ => True) x) (hf : ∀ a, x = .ok a → Answers E Q (f a)) : Answers E Q (x >>= f) :=
  hx.bind fun a ha _ => hf a ha

theorem Answers.mono {α : Type} {P Q : α → Prop} {x : Except ParseError α} (h : Answers E P x)
    (hPQ : ∀ a, P a → Q a) : Answers E Q x := by
  cases h with
  | ok ha => exact .ok (hPQ _ ha)
  | error he => exact .error he

theorem Answers.mono_error {F : ParseError → Prop} {α : Type} {P : α → Prop} {x : Except ParseError α}
    (h : Answers E P x) (hEF : ∀ e, x = .error e → E e → F e) : Answers F P x := by
  cases h with
  | ok ha => exact .ok ha
  | error he => exact .error (hEF _ rfl he)

variable {c : Cursor} {ch : Char} {rest : List Char} {cause : Cause}

/-- Nothing is asked of an error whose cause leaves nothing open. -/
theorem of_opener?_none {P : Char → Prop} (hcause : cause.opener? = none) :
    ∀ o, cause.opener? = some o → P o := by
  intro o ho
  rw [hcause] at ho
  cases ho

theorem blamed_charSpan (hc : c.On cs) (hrest : c.rest = ch :: rest) (hcause : cause.opener? = none) :
    ParseError.Blamed cs ⟨cause, c.charSpan⟩ := by
  have hp := path_cons hrest
  refine ⟨c, c.drop 1, [ch], hc, hp, by simp, ?_, of_opener?_none hcause⟩
  simp [charSpan, spanTo, hrest, hp.offset]

theorem byteSpan_eq (hrest : c.rest = ch :: rest) (hsize : ch.utf8Size = 1) :
    c.byteSpan = c.spanTo (c.drop 1).offset := by
  rw [spanTo, (path_cons hrest).offset]
  simp [byteSpan, hsize]

/-- What is left open is blamed on the byte of what opens it. -/
theorem blamed_opener (hc : c.On cs) (hrest : c.rest = ch :: rest) (hsize : ch.utf8Size = 1)
    (hopener : cause.opener? = some ch) (hleft : ParseError.LeftOpen cs c ⟨cause, c.byteSpan⟩) :
    ParseError.Blamed cs ⟨cause, c.byteSpan⟩ := by
  refine ⟨c, c.drop 1, [ch], hc, path_cons hrest, by simp, byteSpan_eq hrest hsize, fun o ho => ?_⟩
  cases hopener.symm.trans ho
  exact ⟨rfl, hsize, hleft⟩

/-! ## Script -/

namespace Script

theorem blames_closingBrace (hc : c.On cs) (hopen : c.rest = '\x7b' :: rest) :
    Blames cs (closingBrace c) := by
  unfold closingBrace
  split
  · exact .ok trivial
  · next before hs =>
    obtain ⟨t, hmem, -, hp, rest, hrest⟩ := path_scanBrace (congrArg stopOf hs)
    obtain ⟨ch, text, htext⟩ := List.exists_cons_of_ne_nil (text_ne_nil_of_mem_tokenize hmem)
    rw [htext] at hrest
    exact .error (blamed_charSpan (hc.reaches hp.reaches) hrest rfl)
  · next hs =>
    refine .error (blamed_opener hc hopen (by decide) rfl ?_)
    show closingBrace c = _
    rw [closingBrace, hs]

/-- The span of a character of the text. -/
def IsChar (cs : List Char) (s : Span) : Prop :=
  ∃ (c : Cursor) (ch : Char) (rest : List Char), c.On cs ∧ c.rest = ch :: rest ∧ s = c.charSpan

theorem IsChar.blamed {s : Span} (h : IsChar cs s) (hcause : cause.opener? = none) :
    ParseError.Blamed cs ⟨cause, s⟩ := by
  obtain ⟨c, ch, rest, hc, hrest, rfl⟩ := h
  exact blamed_charSpan hc hrest hcause

/-- The brackets that are paired off, and those that wait, are characters of the text. -/
theorem blames_checkBrackets {stack : List (TokenKind × Span)} {ts : List Located}
    (hstack : ∀ p ∈ stack, IsChar cs p.2) (hts : ∀ t ∈ ts, IsChar cs t.firstChar) :
    Blames cs (checkBrackets stack ts) := by
  fun_induction checkBrackets stack ts with
  | case1 => exact .ok trivial
  | case2 kind place stack => exact .error ((hstack (kind, place) (by simp)).blamed rfl)
  | case3 stack t ts => exact .error ((hts t (by simp)).blamed rfl)
  | case4 stack t ts _ closer _ ih =>
    obtain ⟨ht, hts⟩ := List.forall_mem_cons.mp hts
    exact ih (List.forall_mem_cons.mpr ⟨ht, hstack⟩) hts
  | case5 t ts _ _ _ place stack ih =>
    exact ih (List.forall_mem_cons.mp hstack).2 (List.forall_mem_cons.mp hts).2
  | case6 t ts => exact .error ((hts t (by simp)).blamed rfl)
  | case7 t ts => exact .error ((hts t (by simp)).blamed rfl)
  | case8 stack t ts _ _ _ ih => exact ih hstack (List.forall_mem_cons.mp hts).2

theorem blames_checkBalanced {d : Cursor} {text : List Char} (hc : c.On cs) (h : c.Path text d) :
    Blames cs (checkBalanced c.offset text) := by
  refine blames_checkBrackets (by simp) fun t ht => ?_
  rw [← tokenize_flatMap_text text] at h
  obtain ⟨a, b, ha, hab, hspan⟩ := path_of_mem_locate h ht
  obtain ⟨token, htoken, htext⟩ := exists_token_of_mem_locate ht
  obtain ⟨ch, rest, hcons⟩ := List.exists_cons_of_ne_nil (text_ne_nil_of_mem_tokenize htoken)
  rw [← htext] at hcons
  refine ⟨a, ch, rest ++ b.rest, hc.reaches ha, by rw [hab.rest, hcons]; rfl, ?_⟩
  have hrest := hab.rest
  rw [hcons] at hrest
  simp [Located.firstChar, charSpan, hspan, hcons, hrest, spanTo]

end Script

/-! ## Tags -/

variable {lt : Cursor}

theorem AngleAt.ne_nil (h : AngleAt cs lt) : lt.rest ≠ [] := by
  obtain ⟨rest, hrest⟩ := h.stands
  simp [hrest]

/-- What a tag leaves open is blamed on its angle bracket. -/
theorem AngleAt.blamed (h : AngleAt cs lt) (hopener : cause.opener? = some '<')
    (hleft : ParseError.LeftOpen cs lt ⟨cause, lt.byteSpan⟩) : ParseError.Blamed cs ⟨cause, lt.byteSpan⟩ := by
  obtain ⟨rest, hrest⟩ := h.stands
  exact blamed_opener h.on hrest (by decide) hopener hleft

namespace Tag

/-- An error of the readers inside the tag at `lt`. What the end of the text leaves open is known to
be blamed on the right character, but that the tag is not read is known only to its own reader. -/
inductive FailsInside (cs : List Char) (lt : Cursor) : ParseError → Prop
  | blamed {e : ParseError} : e.Blamed cs → FailsInside cs lt e
  | ended (need : TagNeed) : FailsInside cs lt ⟨.unexpectedEnd need, lt.byteSpan⟩
  | unquoted {a : Cursor} {quote : Char} {rest : List Char} :
    lt.Reaches a → a.rest = quote :: rest → quote.utf8Size = 1 → quote ∉ rest →
    FailsInside cs lt ⟨.unclosedQuote quote, a.byteSpan⟩

/-- The errors of a reader inside the tag at `lt`. -/
abbrev BlamesInside (cs : List Char) (lt : Cursor) {α : Type} (x : Except ParseError α) : Prop :=
  Answers (FailsInside cs lt) (fun _ => True) x

theorem blamesInside_of_blames {α : Type} {x : Except ParseError α} (h : Blames cs x) : BlamesInside cs lt x :=
  h.mono_error fun _ _ he => .blamed he

theorem blames_readSpread (hc : c.On cs) (hopen : c.rest = '\x7b' :: rest) :
    Blames cs (readSpread c) := by
  unfold readSpread
  refine (Script.blames_closingBrace hc hopen).bind_true fun close hclose => ?_
  obtain ⟨body, -, -, hwhole⟩ := Script.closingBrace_body hclose hopen
  dsimp only
  split
  · exact .ok trivial
  · exact .error ⟨c, _, _, hc, hwhole, by simp, rfl, of_opener?_none rfl⟩

variable (hlt : AngleAt cs lt)

include hlt

theorem failsInside_charSpan (hc : lt.Reaches c) (hrest : c.rest = ch :: rest) (hcause : cause.opener? = none) :
    FailsInside cs lt ⟨cause, c.charSpan⟩ :=
  .blamed (blamed_charSpan (hlt.on.reaches hc) hrest hcause)

theorem blames_readValue (hc : lt.Reaches c) : BlamesInside cs lt (readValue lt c) := by
  unfold readValue
  split
  · exact .error (.ended .value)
  · next ch rest hrest =>
    split
    · next hquote =>
      split
      · exact .ok trivial
      · next hnone =>
        have hsize : ch.utf8Size = 1 := by
          rcases Bool.or_eq_true_iff.mp hquote with h | h <;> rw [beq_iff_eq.mp h] <;> decide
        exact .error (.unquoted hc hrest hsize (by simpa using hnone))
    split
    · next hbrace =>
      rw [beq_iff_eq.mp hbrace] at hrest
      have hclose := Script.blames_closingBrace (hlt.on.reaches hc) hrest
      exact (blamesInside_of_blames hclose).bind_true fun _ _ => .ok trivial
    · exact .error (failsInside_charSpan hlt hc hrest rfl)

theorem blames_readAttribute (hc : lt.Reaches c) : BlamesInside cs lt (readAttribute lt c) := by
  unfold readAttribute
  dsimp only
  split
  · have hvalue : c.Reaches ((readName c).2.skipBlanks.drop 1).skipBlanks :=
      (reaches_readName c).trans
        ((reaches_skipBlanks _).trans ((reaches_drop _ 1).trans (reaches_skipBlanks _)))
    exact (blames_readValue hlt (hc.trans hvalue)).bind_true fun _ _ => .ok trivial
  · exact .ok trivial

theorem blames_readAttributes (fuel : Nat) (hc : lt.Reaches c) :
    BlamesInside cs lt (readAttributes lt fuel c) := by
  induction fuel generalizing c with
  | zero => exact .error (.ended .close)
  | succ fuel ih =>
    have hblanks := hc.trans (reaches_skipBlanks c)
    simp only [readAttributes, attributesRound]
    split
    · exact .error (.ended .close)
    next ch rest hrest =>
    split
    · exact .ok trivial
    split
    · split
      · exact .error (.ended .closeAfterSlash)
      · next other later hother =>
        split
        · exact .ok trivial
        · have hslash := hblanks.trans ((reaches_drop _ 1).trans (reaches_skipBlanks _))
          exact .error (failsInside_charSpan hlt hslash hother rfl)
    split
    · split
      · next hbrace =>
        rw [beq_iff_eq.mp hbrace] at hrest
        have hspread := blames_readSpread (hlt.on.reaches hblanks) hrest
        refine (blamesInside_of_blames hspread).bind_true fun found hfirst => ?_
        exact (ih (hblanks.trans (readSpread_ok hfirst).1)).bind_true fun _ _ => .ok trivial
      · refine (blames_readAttribute hlt hblanks).bind_true fun found hfirst => ?_
        exact (ih (hblanks.trans (readAttribute_ok hfirst).1)).bind_true fun _ _ => .ok trivial
    · exact .error (failsInside_charSpan hlt hblanks hrest rfl)

theorem blames_readBareEnd (hc : lt.Reaches c) (closing : Bool) :
    BlamesInside cs lt (readBareEnd lt c closing) := by
  unfold readBareEnd
  split
  · exact .error (.ended .close)
  · next ch rest hrest =>
    split
    · exact .ok trivial
    · exact .error (failsInside_charSpan hlt hc hrest rfl)

theorem blames_readTagName (hc : lt.Reaches c) : BlamesInside cs lt (readTagName lt c) := by
  unfold readTagName
  split
  · exact .error (.ended .name)
  · next ch rest hrest =>
    split
    · exact .ok trivial
    split
    · exact .ok trivial
    · exact .error (failsInside_charSpan hlt hc hrest rfl)

theorem blamesInside_read : BlamesInside cs lt (read lt) := by
  have hfirst : lt.Reaches (lt.drop 1).skipBlanks := (reaches_drop lt 1).trans (reaches_skipBlanks _)
  have hname : ∀ closing : Bool, lt.Reaches
      (if closing then ((lt.drop 1).skipBlanks.drop 1).skipBlanks else (lt.drop 1).skipBlanks) := by
    intro closing
    split
    · exact hfirst.trans ((reaches_drop _ 1).trans (reaches_skipBlanks _))
    · exact hfirst
  unfold read
  refine (blames_readTagName hlt (hname _)).bind_true fun found hbehind => ?_
  have hc := (hname _).trans (readTagName_ok hbehind)
  dsimp only
  split
  · exact (blames_readBareEnd hlt hc _).bind_true fun _ _ => .ok trivial
  · exact (blames_readAttributes hlt _ hc).bind_true fun _ _ => .ok trivial

/-- A tag that is not read: what its readers left to be said is that it is not read. -/
theorem blames_read : Blames cs (read lt) := by
  refine (blamesInside_read hlt).mono_error fun e hread he => ?_
  cases he with
  | blamed he => exact he
  | ended need => exact hlt.blamed rfl hread
  | @unquoted a quote rest ha hrest hsize hnone =>
    refine blamed_opener (hlt.on.reaches ha) hrest hsize rfl ⟨?_, lt, hlt, ha, hread⟩
    rw [rest_drop, hrest]
    exact hnone

/-- A tag of the text is not empty, so an error can be blamed on it. -/
theorem blamed_span {tag : Tag} {next : Cursor} (h : read lt = .ok (tag, next))
    (hcause : cause.opener? = none) : ParseError.Blamed cs ⟨cause, tag.span⟩ := by
  obtain ⟨t, hne, ht⟩ := path_read h hlt.ne_nil
  exact ⟨lt, next, t, hlt.on, ht, hne, (read_ok h).2.1, of_opener?_none hcause⟩

/-- A whole tag that waits for the one that closes it. -/
theorem blamed_unclosed {tag : Tag} {next : Cursor} (h : read lt = .ok (tag, next))
    (hopening : tag.closing = false) (hself : tag.selfClosing = false) (within : Enclosure) :
    ParseError.Blamed cs ⟨.unclosedTag tag.display within, lt.byteSpan⟩ :=
  hlt.blamed rfl ⟨tag, next, h, hopening, hself, rfl⟩

end Tag

end Mdx

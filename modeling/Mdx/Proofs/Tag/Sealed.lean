/-
The text of a tag is sealed if its literals are strings. Between the values of a
tag there are no quotes, and its one slash starts no comment, so a tag can only
run on in one of its literals. The text before a literal is sealed if those
before it are strings (`literal_of_read`).
-/
import Mdx.Proofs.Script.Quoted
import Mdx.Proofs.Tag.Written

namespace Mdx

/-- The text between the quotes of an attribute's value. -/
def Attribute.literal? (a : Attribute) : Option (List Char) :=
  match a.kind with
  | .named _ (some (.literal text)) => some text.toList
  | _ => none

/-- If the value of the attribute is a literal, it is one string. -/
def Attribute.IsString (a : Attribute) : Prop := ∀ body, a.literal? = some body → Script.IsStringBody body

namespace Tag

open Cursor Script

variable {lt c d next : Cursor} {o : Nat} {a : Attribute} {attributes : List Attribute} {selfClosing : Bool}
  {text body : List Char} {tag : Tag}

/-! ## What is around the values -/

/-- Nothing in the text opens a string or a comment, and there is no star. -/
def Quiet (t : List Char) : Prop := ∀ ch ∈ t, isPlain ch = true ∧ ch ≠ '*'

theorem quiet_of_class {p : Char → Bool} {t : List Char} (h : ∀ ch ∈ t, p ch = true) (hdouble : p '\x22' = false)
    (hsingle : p '\x27' = false) (htemplate : p '\x60' = false) (hslash : p '/' = false)
    (hstar : p '*' = false) : Quiet t := by
  refine fun ch hch => ⟨isPlain_of_class (h ch hch) hdouble hsingle htemplate hslash, ?_⟩
  rintro rfl
  rw [h _ hch] at hstar
  cases hstar

theorem quiet_blanks {t : List Char} (h : Blanks t) : Quiet t := by
  refine quiet_of_class h ?_ ?_ ?_ ?_ ?_ <;> decide

theorem IsName.quiet {t : List Char} (h : IsName t) : Quiet t := by
  refine quiet_of_class h.chars ?_ ?_ ?_ ?_ ?_ <;> decide +kernel

theorem Quiet.append {t u : List Char} (ht : Quiet t) (hu : Quiet u) : Quiet (t ++ u) :=
  List.forall_mem_append.mpr ⟨ht, hu⟩

theorem quiet_singleton {ch : Char} (hplain : isPlain ch = true) (hstar : ch ≠ '*') : Quiet [ch] :=
  List.forall_mem_singleton.mpr ⟨hplain, hstar⟩

theorem Quiet.sealed {t : List Char} (h : Quiet t) : Sealed t := sealed_of_plain fun ch hch => (h ch hch).1

/-- The end of a tag that has a slash. -/
theorem sealed_slash_end {t : List Char} (h : Quiet t) : Sealed ('/' :: (t ++ ['>'])) :=
  sealed_slash (by simp) (h.append (quiet_singleton (by decide) (by decide)))

/-! ## Attributes -/

theorem ValueWritten.sealed {v : AttributeValue} (h : ValueWritten o v text)
    (hstring : ∀ t, v = .literal t → IsStringBody t.toList) : Sealed text := by
  cases h with
  | literal hquote hbody =>
    have hstring := hstring _ rfl
    rw [String.toList_ofList] at hstring
    exact sealed_string hquote hbody hstring
  | expression hbraced => exact hbraced.sealed

/-- What is before the value of an attribute. -/
theorem quiet_before_value {name before after : List Char} (hname : IsName name) (hbefore : Blanks before)
    (hafter : Blanks after) : Quiet (name ++ before ++ '=' :: after) :=
  (hname.quiet.append (quiet_blanks hbefore)).append
    ((quiet_singleton (by decide) (by decide)).append (quiet_blanks hafter))

theorem AttributeWritten.sealed (h : AttributeWritten o a text) (hstring : a.IsString) : Sealed text := by
  cases h with
  | bare hname => exact hname.quiet.sealed
  | valued hname hbefore hafter hvalue =>
    refine (quiet_before_value hname hbefore hafter).sealed.append (hvalue.sealed ?_)
    rintro t rfl
    exact hstring _ rfl
  | spread hbraced _ => exact hbraced.sealed

/-- A literal stands at the end of its attribute. -/
theorem AttributeWritten.literal (h : AttributeWritten o a text) (hbody : a.literal? = some body) :
    ∃ front q, text = front ++ (q :: (body ++ [q])) ∧ IsQuoteMark q ∧ q ∉ body ∧ Sealed front := by
  cases h with
  | bare _ => cases hbody
  | valued hname hbefore hafter hvalue =>
    cases hvalue with
    | literal hquote hq =>
      simp only [Attribute.literal?, String.toList_ofList, Option.some.injEq] at hbody
      subst hbody
      exact ⟨_, _, rfl, hquote, hq, (quiet_before_value hname hbefore hafter).sealed⟩
    | expression _ => cases hbody
  | spread _ _ => cases hbody

theorem AttributeWritten.start_le (h : AttributeWritten o a text) (hbody : a.literal? = some body) :
    a.span.start ≤ a.span.stop - 1 - byteLength body := by
  obtain ⟨front, q, rfl, hq, -⟩ := h.literal hbody
  have hsize := q.utf8Size_pos
  rw [h.span_eq]
  simp only [byteLength_append, byteLength_cons, byteLength_nil]
  omega

theorem AttributesWritten.sealed (h : AttributesWritten o attributes selfClosing text)
    (hstrings : ∀ a ∈ attributes, a.IsString) : Sealed text := by
  induction h with
  | stop hblanks =>
    exact ((quiet_blanks hblanks).append (quiet_singleton (by decide) (by decide))).sealed
  | selfClosing hblanks hbetween =>
    rw [List.append_assoc]
    exact (quiet_blanks hblanks).sealed.append (sealed_slash_end (quiet_blanks hbetween))
  | cons hblanks hfirst _ _ ih =>
    obtain ⟨hstring, hstrings⟩ := List.forall_mem_cons.mp hstrings
    exact ((quiet_blanks hblanks).sealed.append (hfirst.sealed hstring)).append (ih hstrings)

/-- The text before an attribute is sealed if the literals there are strings. -/
theorem AttributesWritten.before (h : AttributesWritten o attributes selfClosing text) (ha : a ∈ attributes)
    (hearlier : ∀ b ∈ attributes, b.span.stop ≤ a.span.start → b.IsString) : ∃ front t back,
      text = front ++ t ++ back ∧ AttributeWritten (o + byteLength front) a t ∧ Sealed front := by
  induction h with
  | stop _ => cases ha
  | selfClosing _ _ => cases ha
  | @cons o first attributes selfClosing blanks t later hblanks hfirst _ hlater ih =>
    obtain ⟨hstring, hstrings⟩ := List.forall_mem_cons.mp hearlier
    rcases List.mem_cons.mp ha with rfl | ha
    · exact ⟨blanks, t, later, rfl, hfirst, (quiet_blanks hblanks).sealed⟩
    · obtain ⟨front, t', back, rfl, hwritten, hsealed⟩ := ih ha hstrings
      have hle : first.span.stop ≤ a.span.start := by
        rw [hfirst.span_eq, hwritten.span_eq]
        simp only [byteLength_append]
        omega
      refine ⟨blanks ++ t ++ front, t', back, by simp, ?_, ?_⟩
      · rw [byteLength_append (blanks ++ t), ← Nat.add_assoc]
        exact hwritten
      · exact ((quiet_blanks hblanks).sealed.append (hfirst.sealed (hstring hle))).append hsealed

/-! ## Tags -/

theorem quiet_angle : Quiet ['<'] := quiet_singleton (by decide) (by decide)

theorem Written.sealed (h : Written o tag text) (hstrings : ∀ a ∈ tag.attributes, a.IsString) : Sealed text := by
  cases h with
  | opening hlead hname _ hwritten =>
    exact ((quiet_angle.append (quiet_blanks hlead)).append hname.quiet).sealed.append (hwritten.sealed hstrings)

/-- A literal of a tag, between its quotes. What is before it is sealed if the literals there are
strings. -/
theorem Written.literal (h : Written o tag text) (ha : a ∈ tag.attributes) (hbody : a.literal? = some body)
    (hearlier : ∀ b ∈ tag.attributes, b.span.stop ≤ a.span.start → b.IsString) : ∃ front q back,
      text = front ++ (q :: (body ++ [q]) ++ back) ∧ IsQuoteMark q ∧ q ∉ body ∧ Sealed front ∧
        a.span.stop = o + byteLength (front ++ q :: (body ++ [q])) := by
  cases h with
  | @opening lead name _ _ _ hlead hname _ hwritten =>
    obtain ⟨before, t, behind, rfl, hattribute, hsealed⟩ := hwritten.before ha hearlier
    obtain ⟨front, q, rfl, hq, hne, hfront⟩ := hattribute.literal hbody
    have hstart : Sealed ('<' :: lead ++ name) :=
      ((quiet_angle.append (quiet_blanks hlead)).append hname.quiet).sealed
    refine ⟨'<' :: lead ++ name ++ before ++ front, q, behind, by simp, hq, hne,
      (hstart.append hsealed).append hfront, ?_⟩
    rw [hattribute.span_eq]
    simp only [byteLength_append]
    omega

/-- The name of a tag, and the blanks behind it. -/
theorem quiet_of_readTagName {name : Option String} (h : readTagName lt c = .ok (name, next)) :
    ∃ t, c.Path t next ∧ Quiet t := by
  cases name with
  | none =>
    unfold readTagName at h
    split at h
    · cases h
    · split at h
      · cases h
        exact ⟨[], .refl c, by simp [Quiet]⟩
      · split at h <;> cases h
  | some name =>
    obtain ⟨t, nameEnd, hp, ht, -, -, rfl⟩ := readTagName_eq_some h
    obtain ⟨blanks, hblanks, hall⟩ := path_skipBlanks nameEnd
    exact ⟨t ++ blanks, hp.trans hblanks, ht.quiet.append (quiet_blanks hall)⟩

/-- A tag is an opening one with a name, or it has nothing in it that could run on. -/
theorem opening_or_sealed {rest : List Char} (hlt : lt.rest = '<' :: rest) (h : read lt = .ok (tag, next)) :
    (tag.closing = false ∧ ∃ name, tag.name = some name) ∨
      (tag.attributes = [] ∧ ∃ text, lt.Path text next ∧ Sealed text) := by
  unfold read at h
  obtain ⟨⟨name, behind⟩, hname, h⟩ := ok_of_bind h
  dsimp only at h hname
  split at h
  · obtain ⟨next', hend, h⟩ := ok_of_bind h
    cases h
    refine .inr ⟨rfl, ?_⟩
    obtain ⟨lead, hlead, hblanks⟩ := path_skipBlanks (lt.drop 1)
    obtain ⟨t, ht, hquiet⟩ := quiet_of_readTagName hname
    have hclose := closes_readBareEnd hend
    have hfirst := (path_cons hlt).trans hlead
    have hopen := quiet_angle.append (quiet_blanks hblanks)
    split at ht
    · next hslash =>
      obtain ⟨tail, hslash⟩ := List.head?_eq_some_iff.mp (beq_iff_eq.mp hslash)
      obtain ⟨between, hbetween, hall⟩ := path_skipBlanks ((lt.drop 1).skipBlanks.drop 1)
      have hslashEnd := sealed_slash_end ((quiet_blanks hall).append hquiet)
      refine ⟨_, hfirst.trans ((path_cons hslash).trans ((hbetween.trans ht).trans hclose)), ?_⟩
      exact hopen.sealed.append hslashEnd
    · refine ⟨_, hfirst.trans (ht.trans hclose), ?_⟩
      exact (hopen.append (hquiet.append (quiet_singleton (by decide) (by decide)))).sealed
  · next hbare =>
    obtain ⟨⟨attributes, selfClosing, next'⟩, -, h⟩ := ok_of_bind h
    cases h
    simp only [Bool.or_eq_true, not_or, Option.isNone_iff_eq_none] at hbare
    exact .inl ⟨rfl, Option.ne_none_iff_exists'.mp hbare.2⟩

/-- A tag is sealed if its literals are strings. -/
theorem sealed_of_read {rest : List Char} (hlt : lt.rest = '<' :: rest) (h : read lt = .ok (tag, next))
    (hstrings : ∀ a ∈ tag.attributes, a.IsString) : ∃ text, lt.Path text next ∧ Sealed text := by
  rcases opening_or_sealed hlt h with ⟨hopening, name, hname⟩ | ⟨-, hsealed⟩
  · obtain ⟨text, hp, hwritten⟩ := written_of_read hlt h hopening hname
    exact ⟨text, hp, hwritten.sealed hstrings⟩
  · exact hsealed

/-- A literal starts behind its attribute. -/
theorem start_le_of_read {rest : List Char} (hlt : lt.rest = '<' :: rest) (h : read lt = .ok (tag, next))
    (ha : a ∈ tag.attributes) (hbody : a.literal? = some body) :
    a.span.start ≤ a.span.stop - 1 - byteLength body := by
  rcases opening_or_sealed hlt h with ⟨hopening, name, hname⟩ | ⟨hnil, -⟩
  · obtain ⟨text, -, hwritten⟩ := written_of_read hlt h hopening hname
    obtain ⟨_, _, _, -, hattribute, -⟩ := hwritten.of_mem ha
    exact hattribute.start_le hbody
  · rw [hnil] at ha
    cases ha

/-- A literal of a tag that is read stands between quotes behind a sealed text, if the literals before it
are strings. -/
theorem literal_of_read {rest : List Char} (hlt : lt.rest = '<' :: rest) (h : read lt = .ok (tag, next))
    (ha : a ∈ tag.attributes) (hbody : a.literal? = some body)
    (hearlier : ∀ b ∈ tag.attributes, b.span.stop ≤ a.span.start → b.IsString) : ∃ front q back,
      lt.Path (front ++ (q :: (body ++ [q]) ++ back)) next ∧ IsQuoteMark q ∧ q ∉ body ∧ Sealed front ∧
        a.span.stop = lt.offset + byteLength (front ++ q :: (body ++ [q])) := by
  rcases opening_or_sealed hlt h with ⟨hopening, name, hname⟩ | ⟨hnil, -⟩
  · obtain ⟨text, hp, hwritten⟩ := written_of_read hlt h hopening hname
    obtain ⟨front, q, back, rfl, hliteral⟩ := hwritten.literal ha hbody hearlier
    exact ⟨front, q, back, hp, hliteral⟩
  · rw [hnil] at ha
    cases ha

end Tag

end Mdx

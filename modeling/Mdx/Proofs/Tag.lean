/-
A tag that is read ends behind its start, its span is the text in between, and
the ranges its attributes keep lie inside it in order of reading.
-/
import Mdx.Proofs.Script.Brace
import Mdx.Proofs.Script.Identifier
import Mdx.Proofs.Text.Line
import Mdx.Tag

namespace Mdx

/-- The span between two places from `c` on and up to `d`. -/
def Cursor.Holds (c : Cursor) (s : Span) (d : Cursor) : Prop :=
  ∃ a b : Cursor, c.Reaches a ∧ a.Reaches b ∧ b.Reaches d ∧ s = a.spanTo b.offset

theorem Cursor.Holds.widen {c c' d d' : Cursor} {s : Span} (h : c.Holds s d) (hc : c'.Reaches c)
    (hd : d.Reaches d') : c'.Holds s d' := by
  obtain ⟨a, b, ha, hab, hb, rfl⟩ := h
  exact ⟨a, b, hc.trans ha, hab, hb.trans hd, rfl⟩

theorem Cursor.Reaches.holds {c d : Cursor} (h : c.Reaches d) : c.Holds (c.spanTo d.offset) d :=
  ⟨c, d, .refl c, h, .refl d, rfl⟩

/-- The ranges of an attribute: its span, and the braces of its value. -/
def Attribute.ranges (a : Attribute) : List Span :=
  match a.kind with
  | .named _ (some (.expression s)) => [a.span, s]
  | .named _ _ => [a.span]
  | .spread s => [a.span, s]

namespace Tag

open Cursor

/-! ## Characters of names -/

theorem isNameChar_of_isNameStart {ch : Char} (h : isNameStart ch = true) : isNameChar ch = true := by
  simp only [isNameStart, Bool.or_eq_true] at h
  rcases h with (h | h) | h <;> simp [isNameChar, isAlphanumeric, h]

theorem isNameChar_of_isBlank {ch : Char} (h : isBlank ch = true) : isNameChar ch = false := by
  have hidentifier := Script.isIdentifierChar_of_isBlank h
  simp only [Script.isIdentifierChar, Bool.or_eq_false_iff] at hidentifier
  have hsign : ∀ sign, isBlank sign = false → (ch == sign) = false := by
    intro sign hsign
    refine beq_eq_false_iff_ne.mpr ?_
    rintro rfl
    rw [h] at hsign
    cases hsign
  simp [isNameChar, hidentifier, hsign '-' (by decide), hsign '.' (by decide), hsign ':' (by decide)]

theorem isBlank_of_isNameStart {ch : Char} (h : isNameStart ch = true) : isBlank ch = false := by
  cases hblank : isBlank ch with
  | false => rfl
  | true =>
    have hchar := isNameChar_of_isNameStart h
    rw [isNameChar_of_isBlank hblank] at hchar
    cases hchar

/-! ## Where tags stand -/

variable {lt c next : Cursor}

theorem reaches_skipBlanks (c : Cursor) : c.Reaches c.skipBlanks := (path_skipWhile c isBlank).reaches

theorem reaches_readName (c : Cursor) : c.Reaches (readName c).2 := (path_skipWhile c isNameChar).reaches

theorem reaches_closeBrace {close : Script.ClosingBrace} (h : Script.closingBrace c = .ok close) :
    c.Reaches (close.place.drop 1) := by
  obtain ⟨before, rest, hp, -⟩ := Script.path_closingBrace h
  exact hp.reaches.trans (reaches_drop _ 1)

theorem readValue_ok {v : AttributeValue} (h : readValue lt c = .ok (v, next)) :
    c.Reaches next ∧ ∀ s, v = .expression s → s = c.spanTo next.offset := by
  unfold readValue at h
  split at h
  · cases h
  · split at h
    · split at h
      · simp only [Except.ok.injEq, Prod.mk.injEq] at h
        obtain ⟨rfl, rfl⟩ := h
        exact ⟨reaches_drop _ _, by simp⟩
      · cases h
    · split at h
      · obtain ⟨close, hclose, h⟩ := ok_of_bind h
        simp only [pure, Except.pure, Except.ok.injEq, Prod.mk.injEq] at h
        obtain ⟨rfl, rfl⟩ := h
        refine ⟨reaches_closeBrace hclose, fun s hs => ?_⟩
        simp only [AttributeValue.expression.injEq] at hs
        exact hs.symm
      · cases h

theorem readAttribute_ok {a : Attribute} (h : readAttribute lt c = .ok (a, next)) :
    c.Reaches next ∧ ∀ s ∈ a.ranges, c.Holds s next := by
  have hname := reaches_readName c
  unfold readAttribute at h
  dsimp only at h
  split at h
  · obtain ⟨⟨value, next'⟩, hvalue, h⟩ := ok_of_bind h
    simp only [pure, Except.pure, Except.ok.injEq, Prod.mk.injEq] at h
    obtain ⟨rfl, rfl⟩ := h
    obtain ⟨hnext, hspan⟩ := readValue_ok hvalue
    have hstart : c.Reaches (((readName c).2.skipBlanks.drop 1).skipBlanks) :=
      hname.trans ((reaches_skipBlanks _).trans ((reaches_drop _ 1).trans (reaches_skipBlanks _)))
    have hwhole := hstart.trans hnext
    refine ⟨hwhole, fun s hs => ?_⟩
    cases value with
    | literal text =>
      simp only [Attribute.ranges, List.mem_singleton] at hs
      exact hs ▸ hwhole.holds
    | expression e =>
      simp only [Attribute.ranges, List.mem_cons, List.not_mem_nil, or_false] at hs
      rcases hs with rfl | rfl
      · exact hwhole.holds
      · rw [hspan s rfl]
        exact hnext.holds.widen hstart (.refl _)
  · simp only [Except.ok.injEq, Prod.mk.injEq] at h
    obtain ⟨rfl, rfl⟩ := h
    refine ⟨hname, fun s hs => ?_⟩
    simp only [Attribute.ranges, List.mem_singleton] at hs
    exact hs ▸ hname.holds

theorem readSpread_ok {a : Attribute} (h : readSpread c = .ok (a, next)) :
    c.Reaches next ∧ ∀ s ∈ a.ranges, c.Holds s next := by
  unfold readSpread at h
  obtain ⟨close, hclose, h⟩ := ok_of_bind h
  have hnext := reaches_closeBrace hclose
  dsimp only at h
  split at h
  · simp only [pure, Except.pure, Except.ok.injEq, Prod.mk.injEq] at h
    obtain ⟨rfl, rfl⟩ := h
    refine ⟨hnext, fun s hs => ?_⟩
    simp only [Attribute.ranges, List.mem_cons, List.not_mem_nil, or_false, or_self] at hs
    exact hs ▸ hnext.holds
  · cases h

/-- With this fuel the ranges of all attributes that are read lie inside the tag. -/
def ReadsAttributes (lt : Cursor) (fuel : Nat) : Prop :=
  ∀ {c next : Cursor} {attributes : List Attribute} {selfClosing : Bool},
    readAttributes lt fuel c = .ok (attributes, selfClosing, next) →
    c.Reaches next ∧ ∀ a ∈ attributes, ∀ s ∈ a.ranges, c.Holds s next

/-- An attribute and those read behind it. -/
theorem ReadsAttributes.proceed {fuel : Nat} (hreads : ReadsAttributes lt fuel) {first : Attribute}
    {mid : Cursor} (hmid : c.Reaches mid) (hfirst : ∀ s ∈ first.ranges, c.Holds s mid)
    {attributes : List Attribute} {selfClosing : Bool}
    (h : (do
      let (attributes, selfClosing, stop) ← readAttributes lt fuel mid
      return (first :: attributes, selfClosing, stop)) = Except.ok (attributes, selfClosing, next)) :
    c.Reaches next ∧ ∀ a ∈ attributes, ∀ s ∈ a.ranges, c.Holds s next := by
  obtain ⟨⟨later, self', stop⟩, hlater, h⟩ := ok_of_bind h
  simp only [pure, Except.pure, Except.ok.injEq, Prod.mk.injEq] at h
  obtain ⟨rfl, -, rfl⟩ := h
  obtain ⟨hstop, hinside⟩ := hreads hlater
  refine ⟨hmid.trans hstop, fun a ha s hs => ?_⟩
  rcases List.mem_cons.mp ha with rfl | ha
  · exact (hfirst s hs).widen (.refl c) hstop
  · exact (hinside a ha s hs).widen hmid (.refl _)

theorem readAttributes_ok (lt : Cursor) (fuel : Nat) : ReadsAttributes lt fuel := by
  induction fuel with
  | zero => intro c next attributes selfClosing h; simp [readAttributes] at h
  | succ fuel ih =>
    intro c next attributes selfClosing h
    have hblanks := reaches_skipBlanks c
    simp only [readAttributes, attributesRound] at h
    split at h
    · cases h
    · split at h
      · simp only [pure, Except.pure, Except.ok.injEq, Prod.mk.injEq] at h
        obtain ⟨rfl, -, rfl⟩ := h
        exact ⟨hblanks.trans (reaches_drop _ 1), by simp⟩
      · split at h
        · split at h
          · cases h
          · split at h
            · simp only [pure, Except.pure, Except.ok.injEq, Prod.mk.injEq] at h
              obtain ⟨rfl, -, rfl⟩ := h
              refine ⟨hblanks.trans ?_, by simp⟩
              exact (reaches_drop _ 1).trans ((reaches_skipBlanks _).trans (reaches_drop _ 1))
            · cases h
        · split at h
          · have widen : ∀ {first : Attribute} {mid : Cursor},
                (c.skipBlanks.Reaches mid ∧ ∀ s ∈ first.ranges, c.skipBlanks.Holds s mid) →
                c.Reaches mid ∧ ∀ s ∈ first.ranges, c.Holds s mid :=
              fun hfirst => ⟨hblanks.trans hfirst.1, fun s hs => (hfirst.2 s hs).widen hblanks (.refl _)⟩
            split at h
            · obtain ⟨⟨first, mid⟩, hfirst, h⟩ := ok_of_bind h
              obtain ⟨hmid, hranges⟩ := widen (readSpread_ok hfirst)
              exact ih.proceed hmid hranges h
            · obtain ⟨⟨first, mid⟩, hfirst, h⟩ := ok_of_bind h
              obtain ⟨hmid, hranges⟩ := widen (readAttribute_ok hfirst)
              exact ih.proceed hmid hranges h
          · cases h

theorem readBareEnd_ok {closing : Bool} (h : readBareEnd lt c closing = .ok next) : c.Reaches next := by
  unfold readBareEnd at h
  split at h
  · cases h
  · split at h
    · simp only [Except.ok.injEq] at h
      exact h ▸ reaches_drop _ 1
    · cases h

theorem readTagName_ok {name : Option String} (h : readTagName lt c = .ok (name, next)) :
    c.Reaches next := by
  unfold readTagName at h
  split at h
  · cases h
  · split at h
    · simp only [Except.ok.injEq, Prod.mk.injEq] at h
      exact h.2 ▸ .refl c
    · split at h
      · simp only [Except.ok.injEq, Prod.mk.injEq] at h
        exact h.2 ▸ (reaches_readName c).trans (reaches_skipBlanks _)
      · cases h

/-- The name of a tag stands behind its bracket and the slash of a closing tag. -/
theorem reaches_tagName {closing : Bool} {name : Option String}
    (h : readTagName lt
      (if closing then ((lt.drop 1).skipBlanks.drop 1).skipBlanks else (lt.drop 1).skipBlanks) =
        .ok (name, next)) : (lt.drop 1).Reaches next := by
  refine (reaches_skipBlanks _).trans (Reaches.trans ?_ (readTagName_ok h))
  split
  · exact (reaches_drop _ 1).trans (reaches_skipBlanks _)
  · exact .refl _

/-- A tag that is read: it covers the text up to the place behind it, and holds its attributes. -/
theorem read_ok {tag : Tag} (h : read lt = .ok (tag, next)) : (lt.drop 1).Reaches next ∧
    tag.span = lt.spanTo next.offset ∧ ∀ a ∈ tag.attributes, ∀ s ∈ a.ranges, lt.Holds s next := by
  unfold read at h
  obtain ⟨⟨name, behind⟩, hname, h⟩ := ok_of_bind h
  dsimp only at h
  have hc := reaches_tagName hname
  split at h
  · obtain ⟨next', hnext, h⟩ := ok_of_bind h
    simp only [pure, Except.pure, Except.ok.injEq, Prod.mk.injEq] at h
    obtain ⟨rfl, rfl⟩ := h
    exact ⟨hc.trans (readBareEnd_ok hnext), rfl, by simp⟩
  · obtain ⟨⟨attributes, selfClosing, next'⟩, hattrs, h⟩ := ok_of_bind h
    simp only [pure, Except.pure, Except.ok.injEq, Prod.mk.injEq] at h
    obtain ⟨rfl, rfl⟩ := h
    obtain ⟨hnext, hinside⟩ := readAttributes_ok _ _ hattrs
    refine ⟨hc.trans hnext, rfl, fun a ha s hs => ?_⟩
    exact (hinside a ha s hs).widen ((reaches_drop lt 1).trans hc) (.refl _)

theorem reaches_read {tag : Tag} (h : read lt = .ok (tag, next)) : lt.Reaches next :=
  (reaches_drop lt 1).trans (read_ok h).1

/-- A tag whose bracket is followed by neither a blank nor a slash is no closing tag. -/
theorem closing_eq_false {tag : Tag} (h : read lt = .ok (tag, next)) (hstarts : startsAt lt = true)
    (hslash : lt.startsWith "</" = false) : tag.closing = false := by
  have hhead : ((lt.drop 1).skipBlanks.rest.head? == some '/') = false := by
    unfold startsAt at hstarts
    split at hstarts
    · next ch rest hrest =>
      have hdrop : (lt.drop 1).rest = ch :: rest := by rw [rest_drop, hrest]; rfl
      have hne : ch ≠ '/' := by
        rintro rfl
        rw [startsWith, hrest] at hslash
        simp at hslash
      have hblank : isBlank ch = false := by
        simp only [Bool.or_eq_true, beq_iff_eq] at hstarts
        rcases hstarts with (hname | rfl) | rfl
        · exact isBlank_of_isNameStart hname
        · decide
        · exact absurd rfl hne
      rw [skipBlanks, rest_skipWhile, hdrop, List.dropWhile_cons_of_neg (by simp [hblank])]
      simpa using hne
    · cases hstarts
  unfold read at h
  obtain ⟨⟨name, behind⟩, hname, h⟩ := ok_of_bind h
  dsimp only at h
  rw [hhead] at h
  split at h
  · obtain ⟨next', hnext, h⟩ := ok_of_bind h
    cases h
    rfl
  · obtain ⟨⟨attributes, selfClosing, next'⟩, hattributes, h⟩ := ok_of_bind h
    cases h
    rfl

/-- A tag has at least one character. -/
theorem path_read {tag : Tag} (h : read lt = .ok (tag, next)) (hlt : lt.rest ≠ []) :
    ∃ t, t ≠ [] ∧ lt.Path t next := by
  obtain ⟨ch, rest, hrest⟩ := List.exists_cons_of_ne_nil hlt
  obtain ⟨t, ht⟩ := (read_ok h).1
  exact ⟨[ch] ++ t, by simp, (path_cons hrest).trans ht⟩

/-! ## Where tags end -/

theorem closes_readBareEnd {closing : Bool} (h : readBareEnd lt c closing = .ok next) :
    c.Path ['>'] next := by
  unfold readBareEnd at h
  split at h
  · cases h
  · next ch rest hrest =>
    split at h
    · next hangle =>
      cases h
      rw [beq_iff_eq.mp hangle] at hrest
      exact path_cons hrest
    · cases h

theorem closes_readAttributes {fuel : Nat} {attributes : List Attribute} {selfClosing : Bool}
    (h : readAttributes lt fuel c = .ok (attributes, selfClosing, next)) :
    ∃ d : Cursor, c.Reaches d ∧ d.Path ['>'] next := by
  induction fuel generalizing c attributes selfClosing with
  | zero => cases h
  | succ fuel ih =>
    have hblanks := reaches_skipBlanks c
    simp only [readAttributes, attributesRound] at h
    split at h
    · cases h
    next ch rest hrest =>
    split at h
    · next hangle =>
      cases h
      rw [beq_iff_eq.mp hangle] at hrest
      exact ⟨_, hblanks, path_cons hrest⟩
    split at h
    · split at h
      · cases h
      · next other rest' hrest' =>
        split at h
        · next hangle =>
          cases h
          rw [beq_iff_eq.mp hangle] at hrest'
          exact ⟨_, hblanks.trans ((reaches_drop _ 1).trans (reaches_skipBlanks _)), path_cons hrest'⟩
        · cases h
    have proceed : ∀ {mid : Cursor} {later : List Attribute} {self' : Bool}, c.skipBlanks.Reaches mid →
        readAttributes lt fuel mid = .ok (later, self', next) →
        ∃ d : Cursor, c.Reaches d ∧ d.Path ['>'] next := by
      intro mid later self' hmid hlater
      obtain ⟨d, hd, hclose⟩ := ih hlater
      exact ⟨d, hblanks.trans (hmid.trans hd), hclose⟩
    split at h
    · split at h
      · obtain ⟨⟨first, mid⟩, hfirst, h⟩ := ok_of_bind h
        obtain ⟨⟨later, self', stop⟩, hlater, h⟩ := ok_of_bind h
        cases h
        exact proceed (readSpread_ok hfirst).1 hlater
      · obtain ⟨⟨first, mid⟩, hfirst, h⟩ := ok_of_bind h
        obtain ⟨⟨later, self', stop⟩, hlater, h⟩ := ok_of_bind h
        cases h
        exact proceed (readAttribute_ok hfirst).1 hlater
    · cases h

/-- A tag ends with its angle bracket. -/
theorem closes_read {tag : Tag} (h : read lt = .ok (tag, next)) :
    ∃ d : Cursor, lt.Reaches d ∧ d.Path ['>'] next := by
  unfold read at h
  obtain ⟨⟨name, behind⟩, hname, h⟩ := ok_of_bind h
  dsimp only at h
  have hbehind := (reaches_drop lt 1).trans (reaches_tagName hname)
  split at h
  · obtain ⟨next', hnext, h⟩ := ok_of_bind h
    cases h
    exact ⟨behind, hbehind, closes_readBareEnd hnext⟩
  · obtain ⟨⟨attributes, selfClosing, next'⟩, hattributes, h⟩ := ok_of_bind h
    cases h
    obtain ⟨d, hd, hclose⟩ := closes_readAttributes hattributes
    exact ⟨d, hbehind.trans hd, hclose⟩

end Tag

end Mdx

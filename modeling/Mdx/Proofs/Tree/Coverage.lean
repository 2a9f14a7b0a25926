/-
The tree of a document covers it without gaps. A character that shows is in
exactly one node below the root; in a module block it is in a statement; in an
element it is in one of the tags or in a child. Inline content has no gaps at
all: the children of a paragraph, and those between the tags of an inline
element, stand side by side.
-/
import Mdx.Proofs.Text.Span
import Mdx.Proofs.Tree.Document

namespace Mdx

open Cursor

/-- The whole of a character that stands at the offset lies in the node. -/
def Node.holdsChar (n : Node) (offset : Nat) (ch : Char) : Bool := n.span.any (·.holdsChar offset ch)

/-- The tags of an element with the span `s`: the opening one is read where the element starts, and
the closing one, unless the opening one closes itself, is read behind it and ends the element. -/
structure ElementTags (cs : List Char) (e : Element) (s : Span) (opening : Tag) (closing : Option Tag) :
    Prop where
  opens : ∃ next, Tag.read (.atOffset cs s.start) = .ok (opening, next)
  element : opening.element = e
  closes : match closing with
    | none => opening.selfClosing = true ∧ opening.span = s
    | some tag => ∃ next, Tag.read (.atOffset cs tag.span.start) = .ok (tag, next) ∧
      tag.closing = true ∧ opening.closedBy tag = true ∧ opening.span.stop ≤ tag.span.start ∧
      tag.span.stop = s.stop

/-- The nodes stand side by side from `lo` to `hi`, none is empty, and no two texts are neighbours. -/
def Tiles (lo : Nat) : List Node → (hi : Nat) → Prop
  | [], hi => lo = hi
  | n :: nodes, hi => ∃ s, n.span = some s ∧ s.start = lo ∧ s.start < s.stop ∧
    (n.kind = .text → ∀ m, nodes.head? = some m → m.kind ≠ .text) ∧ Tiles s.stop nodes hi

/-- What a node of the tree covers, by its kind. -/
structure Covers (cs : List Char) (n : Node) (s : Span) : Prop where
  span : n.span = some s
  moduleBlock : n.kind = .moduleBlock → ∀ o ch, ShowsAt cs o ch → s.holdsChar o ch = true →
    ∃ m ∈ n.children, m.kind = .moduleStatement ∧ m.holdsChar o ch = true
  blockElement : ∀ e, n.kind = .blockElement e → ∃ opening closing, ElementTags cs e s opening closing ∧
    ∀ o ch, ShowsAt cs o ch → s.holdsChar o ch = true → opening.span.holdsChar o ch = true ∨
      (∃ tag, closing = some tag ∧ tag.span.holdsChar o ch = true) ∨
      ∃ m ∈ n.children, m.holdsChar o ch = true
  paragraph : n.kind = .paragraph → Tiles s.start n.children s.stop
  inlineElement : ∀ e, n.kind = .inlineElement e → n.children ≠ [] → ∃ opening closing,
    ElementTags cs e s opening (some closing) ∧
      Tiles opening.span.stop n.children closing.span.start

theorem Node.holdsChar_iff {n : Node} {offset : Nat} {ch : Char} :
    n.holdsChar offset ch = true ↔ ∃ s, n.span = some s ∧ s.holdsChar offset ch = true := by
  simp [holdsChar, Option.any_eq_true]

/-- Of things of which no two satisfy `p`, and one does, exactly one does. -/
theorem countP_eq_one {α : Type} {p : α → Bool} {l : List α} (hex : ∃ x ∈ l, p x = true)
    (hpair : l.Pairwise fun x y => ¬ (p x = true ∧ p y = true)) : l.countP p = 1 := by
  induction hpair with
  | nil => simp at hex
  | @cons x l hx _ ih =>
    by_cases hp : p x = true
    · have hnone : l.countP p = 0 := by
        rw [List.countP_eq_zero]
        exact fun y hy hpy => hx y hy ⟨hp, hpy⟩
      rw [List.countP_cons_of_pos hp, hnone]
    · rw [List.countP_cons_of_neg hp]
      obtain ⟨y, hy, hpy⟩ := hex
      rcases List.mem_cons.mp hy with rfl | hy
      · exact absurd hpy hp
      · exact ih ⟨y, hy, hpy⟩

variable {cs : List Char} {a b : Cursor} {nodes : List Node}

theorem Tiled.tiles (h : Tiled a nodes b) : Tiles a.offset nodes b.offset := by
  induction h with
  | nil c => rfl
  | cons htext hne hspan hapart _ ih => exact ⟨_, hspan, rfl, htext.lt hne, hapart, ih⟩

/-- A character that shows between two places is in one of the nodes laid out between them with only
blanks in the gaps. -/
theorem Laid.holdsChar (h : Laid isBlank a nodes b) (ha : a.On cs) {o : Nat} {ch : Char}
    (hshows : ShowsAt cs o ch) (hlo : a.offset ≤ o) (hhi : o < b.offset) :
    ∃ m ∈ nodes, m.holdsChar o ch = true := by
  obtain ⟨x, hx, rfl, rest, hrest⟩ := on_of_charAt? hshows.stands
  obtain ⟨m, hm, s, hs, hle, hge⟩ := h.covers (ha.reaches_of_le hx hlo) hrest hhi hshows.shows
  exact ⟨m, hm, Node.holdsChar_iff.mpr ⟨s, hs, Span.holdsChar_iff.mpr ⟨hle, hge⟩⟩⟩

/-- Of nodes that stand in order only one holds a character. -/
theorem Laid.holdsChar_pairwise {p : Char → Bool} (h : Laid p a nodes b) (o : Nat) (ch : Char) :
    nodes.Pairwise fun m m' => ¬ (m.holdsChar o ch = true ∧ m'.holdsChar o ch = true) := by
  refine h.pairwise.imp fun {m m'} hlt hboth => ?_
  obtain ⟨s, hs, hc⟩ := Node.holdsChar_iff.mp hboth.1
  obtain ⟨t, ht, hc'⟩ := Node.holdsChar_iff.mp hboth.2
  have := hlt s t hs ht
  have := ch.utf8Size_pos
  rw [Span.holdsChar_iff] at hc hc'
  omega

/-- An element with two tags. -/
theorem elementTags_of_read {tag closing : Tag} {x y : Cursor} (ha : a.On cs)
    (hopen : Tag.read a = .ok (tag, x)) (hxy : x.Reaches y) (hclose : Tag.read y = .ok (closing, b))
    (hcl : closing.closing = true) (hclosed : tag.closedBy closing = true) :
    ElementTags cs tag.element (a.spanTo b.offset) tag (some closing) where
  opens := ⟨x, by rw [spanTo, ha.atOffset_eq]; exact hopen⟩
  element := rfl
  closes := by
    have hy : y.On cs := ha.reaches ((Tag.reaches_read hopen).trans hxy)
    have hspan := (Tag.read_ok hclose).2.1
    refine ⟨b, ?_, hcl, hclosed, ?_, ?_⟩
    · rw [hspan, spanTo, hy.atOffset_eq]
      exact hclose
    · rw [hspan, (Tag.read_ok hopen).2.1]
      exact hxy.le
    · rw [hspan]
      rfl

/-- An element of one tag that closes itself. -/
theorem elementTags_of_selfClosing {tag : Tag} (ha : a.On cs) (hopen : Tag.read a = .ok (tag, b))
    (hself : tag.selfClosing = true) : ElementTags cs tag.element (a.spanTo b.offset) tag none where
  opens := ⟨b, by rw [spanTo, ha.atOffset_eq]; exact hopen⟩
  element := rfl
  closes := ⟨hself, (Tag.read_ok hopen).2.1⟩

/-- A character of an element is in one of its tags or between them. -/
theorem holdsChar_of_element {tag closing : Tag} {x y : Cursor} (ha : a.On cs)
    (hopen : Tag.read a = .ok (tag, x)) (hlaid : Laid isBlank x nodes y)
    (hclose : Tag.read y = .ok (closing, b)) {o : Nat} {ch : Char} (hshows : ShowsAt cs o ch)
    (hin : (a.spanTo b.offset).holdsChar o ch = true) : tag.span.holdsChar o ch = true ∨
      closing.span.holdsChar o ch = true ∨ ∃ m ∈ nodes, m.holdsChar o ch = true := by
  have hx := ha.reaches (Tag.reaches_read hopen)
  rw [(Tag.read_ok hopen).2.1, (Tag.read_ok hclose).2.1]
  rw [Span.holdsChar_iff] at hin ⊢
  rw [Span.holdsChar_iff]
  obtain ⟨z, hz, rfl, rest, hrest⟩ := on_of_charAt? hshows.stands
  simp only [spanTo] at hin ⊢
  by_cases hlo : z.offset < x.offset
  · -- The tag ends between two characters, so it holds the whole of this one.
    obtain ⟨t, ht⟩ := hz.reaches_of_le hx (Nat.le_of_lt hlo)
    exact .inl ⟨hin.1, (ht.head_mem hrest hlo).2⟩
  · by_cases hhi : z.offset < y.offset
    · exact .inr (.inr (hlaid.holdsChar hx hshows (by omega) hhi))
    · exact .inr (.inl ⟨by omega, hin.2⟩)

theorem Shape.moduleBlock_covers (h : Shape a b .moduleBlock nodes) (ha : a.On cs) {o : Nat} {ch : Char}
    (hshows : ShowsAt cs o ch) (hin : (a.spanTo b.offset).holdsChar o ch = true) :
    ∃ m ∈ nodes, m.kind = .moduleStatement ∧ m.holdsChar o ch = true := by
  cases h with
  | moduleBlock hkind hlaid =>
    have := ch.utf8Size_pos
    simp only [Span.holdsChar_iff, spanTo] at hin
    obtain ⟨m, hm, hholds⟩ := hlaid.holdsChar ha hshows hin.1 (by omega)
    exact ⟨m, hm, hkind m hm, hholds⟩

theorem Shape.blockElement_covers {e : Element} (h : Shape a b (.blockElement e) nodes) (ha : a.On cs) :
    ∃ opening closing, ElementTags cs e (a.spanTo b.offset) opening closing ∧
      ∀ o ch, ShowsAt cs o ch → (a.spanTo b.offset).holdsChar o ch = true →
        opening.span.holdsChar o ch = true ∨
        (∃ tag, closing = some tag ∧ tag.span.holdsChar o ch = true) ∨
        ∃ m ∈ nodes, m.holdsChar o ch = true := by
  cases h with
  | @blockTag tag hopen hself =>
    refine ⟨tag, none, elementTags_of_selfClosing ha hopen hself, fun o ch _ hin => .inl ?_⟩
    rw [(Tag.read_ok hopen).2.1]
    exact hin
  | @blockElement tag closing x y _ hopen hlaid hclose hcl hclosed =>
    refine ⟨tag, some closing, elementTags_of_read ha hopen hlaid.reaches hclose hcl hclosed, ?_⟩
    intro o ch hshows hin
    rcases holdsChar_of_element ha hopen hlaid hclose hshows hin with h | h | h
    · exact .inl h
    · exact .inr (.inl ⟨closing, rfl, h⟩)
    · exact .inr (.inr h)

theorem Shape.inlineElement_covers {e : Element} (h : Shape a b (.inlineElement e) nodes) (ha : a.On cs)
    (hne : nodes ≠ []) : ∃ opening closing,
      ElementTags cs e (a.spanTo b.offset) opening (some closing) ∧
        Tiles opening.span.stop nodes closing.span.start := by
  cases h with
  | inlineTag => exact absurd rfl hne
  | @inlineElement tag closing x y _ hopen htiled hclose hcl hclosed =>
    refine ⟨tag, closing, elementTags_of_read ha hopen htiled.laid.reaches hclose hcl hclosed, ?_⟩
    rw [(Tag.read_ok hopen).2.1, (Tag.read_ok hclose).2.1]
    exact htiled.tiles

theorem Shape.paragraph_tiles (h : Shape a b .paragraph nodes) : Tiles a.offset nodes b.offset := by
  cases h with
  | paragraph htiled => exact htiled.tiles

theorem Placed.covers {n : Node} (h : Placed cs n) : ∃ s, Covers cs n s := by
  obtain ⟨a, b, ha, -, hspan, hshape⟩ := h
  refine ⟨_, hspan, ?_, ?_, ?_, ?_⟩
  · intro hkind o ch hshows hin
    rw [hkind] at hshape
    exact hshape.moduleBlock_covers ha hshows hin
  · intro e hkind
    rw [hkind] at hshape
    exact hshape.blockElement_covers ha
  · intro hkind
    rw [hkind] at hshape
    exact hshape.paragraph_tiles
  · intro e hkind hne
    rw [hkind] at hshape
    exact hshape.inlineElement_covers ha hne

/-- **The tree covers the document.** Every character that shows is in exactly one node below the
root, and every node covers what its kind says. -/
theorem parse_covers {options : ParseOptions} {root : Node} (h : parse options cs = .ok root) :
    (∀ o ch, ShowsAt cs o ch → root.children.countP (·.holdsChar o ch) = 1) ∧
      ∀ n ∈ root.preorder, ∃ s, Covers cs n s := by
  obtain ⟨-, -, hlaid, hplaced⟩ := parse_ok h
  refine ⟨fun o ch hshows => ?_, fun n hn => (hplaced n hn).covers⟩
  have hex := hlaid.holdsChar (on_ofText cs) hshows (Nat.zero_le o) hshows.lt
  exact countP_eq_one hex (hlaid.holdsChar_pairwise o ch)

/-- A document with an inline element in a block element. -/
theorem parse_covers_element : ∃ root,
    parse .standard " <A>\nx <b>y \x7bz\x7d</b>\n </A>".toList = .ok root ∧
      (∀ o ch, ShowsAt " <A>\nx <b>y \x7bz\x7d</b>\n </A>".toList o ch →
        root.children.countP (·.holdsChar o ch) = 1) ∧
      ∀ n ∈ root.preorder, ∃ s, Covers " <A>\nx <b>y \x7bz\x7d</b>\n </A>".toList n s := by
  have hparses :
      (parse .standard " <A>\nx <b>y \x7bz\x7d</b>\n </A>".toList).toOption.isSome = true := by
    decide +kernel
  obtain ⟨root, h⟩ := exists_ok hparses
  exact ⟨root, h, parse_covers h⟩

end Mdx

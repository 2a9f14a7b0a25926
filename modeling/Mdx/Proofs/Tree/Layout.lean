/-
How the nodes of a tree stand in the text it was read from.

Children stand one after the other between two places of their parent, and what
a parent leaves between them is known by its kind (`Laid`): only blanks in flow
content, nothing at all in inline content (`Tiled`), anything in a heading.
`Placed` says this of one node. A tree of which every node is placed covers its
text as far as it claims to, and has its spans nested and in order.
-/
import Mdx.Node
import Mdx.Proofs.Tag

namespace Mdx

/-- The nodes stand in order between two places, and the gaps hold only characters of `p`. -/
inductive Laid (p : Char → Bool) : Cursor → List Node → Cursor → Prop
  | nil {c d : Cursor} {gap : List Char} : c.Path gap d → (∀ ch ∈ gap, p ch = true) → Laid p c [] d
  | cons {c a b d : Cursor} {gap : List Char} {n : Node} {nodes : List Node} :
    c.Path gap a → (∀ ch ∈ gap, p ch = true) → a.Reaches b → n.span = some (a.spanTo b.offset) →
    Laid p b nodes d → Laid p c (n :: nodes) d

/-- The nodes stand in order between two places without gaps; none is empty, and no two texts stand
side by side. -/
inductive Tiled : Cursor → List Node → Cursor → Prop
  | nil (c : Cursor) : Tiled c [] c
  | cons {a b d : Cursor} {text : List Char} {n : Node} {nodes : List Node} :
    a.Path text b → text ≠ [] → n.span = some (a.spanTo b.offset) →
    (n.kind = .text → ∀ m, nodes.head? = some m → m.kind ≠ .text) → Tiled b nodes d →
    Tiled a (n :: nodes) d

/-- How a node of a kind stands between the places `a` and `b` with its children. -/
inductive Shape (a b : Cursor) : NodeKind → List Node → Prop
  | root {nodes : List Node} : Laid isBlank a nodes b → Shape a b .root nodes
  | frontmatter {dialect : Dialect} {value : Span} :
    a.Holds value b → Shape a b (.frontmatter dialect value) []
  | moduleBlock {nodes : List Node} :
    (∀ n ∈ nodes, n.kind = .moduleStatement) → Laid isBlank a nodes b → Shape a b .moduleBlock nodes
  | moduleStatement : Shape a b .moduleStatement []
  /-- An element whose one tag closes itself. -/
  | blockTag {tag : Tag} :
    Tag.read a = .ok (tag, b) → tag.selfClosing = true → Shape a b (.blockElement tag.element) []
  | blockElement {tag closing : Tag} {x y : Cursor} {nodes : List Node} :
    Tag.read a = .ok (tag, x) → Laid isBlank x nodes y → Tag.read y = .ok (closing, b) →
    closing.closing = true → tag.closedBy closing = true → Shape a b (.blockElement tag.element) nodes
  | inlineTag {tag : Tag} :
    Tag.read a = .ok (tag, b) → tag.selfClosing = true → Shape a b (.inlineElement tag.element) []
  | inlineElement {tag closing : Tag} {x y : Cursor} {nodes : List Node} :
    Tag.read a = .ok (tag, x) → Tiled x nodes y → Tag.read y = .ok (closing, b) →
    closing.closing = true → tag.closedBy closing = true → Shape a b (.inlineElement tag.element) nodes
  | blockExpression {x y : Cursor} {isEmpty : Bool} :
    a.Path ['\x7b'] x → x.Reaches y → y.Path ['\x7d'] b →
    Shape a b (.blockExpression ⟨x.spanTo y.offset, isEmpty⟩) []
  | inlineExpression {x y : Cursor} {isEmpty : Bool} :
    a.Path ['\x7b'] x → x.Reaches y → y.Path ['\x7d'] b →
    Shape a b (.inlineExpression ⟨x.spanTo y.offset, isEmpty⟩) []
  | heading {depth : Nat} {nodes : List Node} :
    Laid (fun _ => true) a nodes b → Shape a b (.heading depth) nodes
  | paragraph {nodes : List Node} : Tiled a nodes b → Shape a b .paragraph nodes
  | code {lang : Option String} : Shape a b (.code lang) []
  | inlineCode : Shape a b .inlineCode []
  | math : Shape a b .math []
  | inlineMath : Shape a b .inlineMath []
  | thematicBreak : Shape a b .thematicBreak []
  | text : Shape a b .text []

/-- The node has a span between two places of the text, and the shape of its kind there. -/
def Placed (cs : List Char) (n : Node) : Prop :=
  ∃ a b : Cursor, a.On cs ∧ a.Reaches b ∧ n.span = some (a.spanTo b.offset) ∧ Shape a b n.kind n.children

/-! ## Laid nodes -/

namespace Laid

variable {p q : Char → Bool} {c d e : Cursor} {nodes more : List Node} {n : Node}

theorem reaches (h : Laid p c nodes d) : c.Reaches d := by
  induction h with
  | nil hgap => exact hgap.reaches
  | cons hgap _ hab _ _ ih => exact hgap.reaches.trans (hab.trans ih)

theorem mono (h : Laid p c nodes d) (hpq : ∀ ch, p ch = true → q ch = true) : Laid q c nodes d := by
  induction h with
  | nil hgap hp => exact .nil hgap fun ch hch => hpq ch (hp ch hch)
  | cons hgap hp hab hspan _ ih => exact .cons hgap (fun ch hch => hpq ch (hp ch hch)) hab hspan ih

/-- More of the gap may stand before the first node. -/
theorem before {gap : List Char} (hgap : c.Path gap d) (hp : ∀ ch ∈ gap, p ch = true)
    (h : Laid p d nodes e) : Laid p c nodes e := by
  cases h with
  | nil hgap' hp' => exact .nil (hgap.trans hgap') (List.forall_mem_append.mpr ⟨hp, hp'⟩)
  | cons hgap' hp' hab hspan hrest =>
    exact .cons (hgap.trans hgap') (List.forall_mem_append.mpr ⟨hp, hp'⟩) hab hspan hrest

theorem append (h : Laid p c nodes d) (h' : Laid p d more e) : Laid p c (nodes ++ more) e := by
  induction h with
  | nil hgap hp => exact before hgap hp h'
  | cons hgap hp hab hspan _ ih => exact .cons hgap hp hab hspan (ih h')

/-- Nodes stand between any two places around them, if all may stand in the gaps. -/
theorem widen {a b : Cursor} (h : Laid p c nodes d) (ha : a.Reaches c) (hb : d.Reaches b) :
    Laid (fun _ => true) a nodes b := by
  obtain ⟨t, ht⟩ := ha
  obtain ⟨u, hu⟩ := hb
  have hlaid := (h.mono (q := fun _ => true) (by simp)).append (.nil hu (by simp))
  rw [List.append_nil] at hlaid
  exact .before ht (by simp) hlaid

/-- Nodes that stand between two places have spans between them. -/
theorem holds (h : Laid p c nodes d) (hn : n ∈ nodes) : ∃ s, n.span = some s ∧ c.Holds s d := by
  induction h with
  | nil => cases hn
  | cons hgap _ hab hspan hrest ih =>
    rcases List.mem_cons.mp hn with rfl | hn
    · exact ⟨_, hspan, _, _, hgap.reaches, hab, hrest.reaches, rfl⟩
    · obtain ⟨s, hs, hholds⟩ := ih hn
      exact ⟨s, hs, hholds.widen (hgap.reaches.trans hab) (.refl _)⟩

/-- A node stops before all that follow it start. -/
theorem pairwise (h : Laid p c nodes d) :
    nodes.Pairwise fun m n => ∀ s t, m.span = some s → n.span = some t → s.stop ≤ t.start := by
  induction h with
  | nil => exact .nil
  | cons hgap _ hab hspan hrest ih =>
    refine .cons (fun m hm s t hs ht => ?_) ih
    obtain ⟨t', ht', x, y, hx, -, -, rfl⟩ := hrest.holds hm
    rw [hspan] at hs
    rw [ht'] at ht
    cases hs
    cases ht
    exact hx.le

/-- A character that cannot stand in a gap stands in one of the nodes, whole. -/
theorem covers (h : Laid p c nodes d) {x : Cursor} {ch : Char} {rest : List Char} (hx : c.Reaches x)
    (hrest : x.rest = ch :: rest) (hlt : x.offset < d.offset) (hch : p ch = false) :
    ∃ n ∈ nodes, ∃ s, n.span = some s ∧ s.start ≤ x.offset ∧ x.offset + ch.utf8Size ≤ s.stop := by
  -- If the character stood in a gap, it would be one of `p`.
  have notGap : ∀ {c' y : Cursor} {gap : List Char}, c'.Reaches x → c'.Path gap y →
      (∀ ch ∈ gap, p ch = true) → ¬ x.offset < y.offset := by
    intro c' y gap ⟨u, hu⟩ hgap hp hy
    obtain ⟨v, rfl, hv⟩ := hu.split hgap (Nat.le_of_lt hy)
    have := hp ch (List.mem_append_right _ (hv.head_mem hrest hy).1)
    simp [hch] at this
  induction h with
  | nil hgap hp => exact absurd hlt (notGap hx hgap hp)
  | @cons c a b d gap n nodes hgap hp hab hspan hlaid ih =>
    have ha : a.offset ≤ x.offset := Nat.le_of_not_lt (notGap hx hgap hp)
    by_cases hb : x.offset < b.offset
    · have hax := hgap.reaches.of_le hx ha
      obtain ⟨t, ht⟩ := hax.of_le hab (Nat.le_of_lt hb)
      exact ⟨n, by simp, _, hspan, ha, (ht.head_mem hrest hb).2⟩
    · have hbx := (hgap.reaches.trans hab).of_le hx (Nat.le_of_not_lt hb)
      obtain ⟨m, hm, hs⟩ := ih hbx hlt
      exact ⟨m, by simp [hm], hs⟩

end Laid

namespace Tiled

variable {a b d : Cursor} {nodes more : List Node} {n : Node}

theorem laid (h : Tiled a nodes d) : Laid (fun _ => false) a nodes d := by
  induction h with
  | nil c => exact .nil (.refl c) (by simp)
  | cons htext _ hspan _ _ ih => exact .cons (.refl _) (by simp) htext.reaches hspan ih

/-- A node that is no text may stand before any others. -/
theorem cons_other {text : List Char} (htext : a.Path text b) (hne : text ≠ [])
    (hspan : n.span = some (a.spanTo b.offset)) (hkind : n.kind ≠ .text) (h : Tiled b nodes d) :
    Tiled a (n :: nodes) d :=
  .cons htext hne hspan (fun hk => absurd hk hkind) h

end Tiled

/-- Whatever its kind, a node has its children between its ends. -/
theorem Shape.laid {a b : Cursor} {kind : NodeKind} {nodes : List Node} (h : Shape a b kind nodes)
    (hab : a.Reaches b) : Laid (fun _ => true) a nodes b := by
  have leaf : Laid (fun _ => true) a [] b := by
    obtain ⟨t, ht⟩ := hab
    exact .nil ht (by simp)
  cases h with
  | root hlaid => exact hlaid.widen (.refl a) (.refl b)
  | moduleBlock _ hlaid => exact hlaid.widen (.refl a) (.refl b)
  | blockElement hopen hlaid hclose =>
    exact hlaid.widen (Tag.reaches_read hopen) (Tag.reaches_read hclose)
  | inlineElement hopen htiled hclose =>
    exact htiled.laid.widen (Tag.reaches_read hopen) (Tag.reaches_read hclose)
  | heading hlaid => exact hlaid
  | paragraph htiled => exact htiled.laid.widen (.refl a) (.refl b)
  | _ => exact leaf

/-! ## Placed trees -/

theorem preorderAll_append (ms ns : List Node) :
    preorderAll (ms ++ ns) = preorderAll ms ++ preorderAll ns := by
  induction ms with
  | nil => rfl
  | cons m ms ih => simp [preorderAll, ih]

theorem forall_mem_preorderAll_append {P : Node → Prop} {ms ns : List Node} :
    (∀ n ∈ preorderAll (ms ++ ns), P n) ↔ (∀ n ∈ preorderAll ms, P n) ∧ ∀ n ∈ preorderAll ns, P n := by
  rw [preorderAll_append, List.forall_mem_append]

theorem forall_mem_preorderAll_cons {P : Node → Prop} {m : Node} {ns : List Node} :
    (∀ n ∈ preorderAll (m :: ns), P n) ↔ (∀ n ∈ m.preorder, P n) ∧ ∀ n ∈ preorderAll ns, P n := by
  rw [preorderAll, List.forall_mem_append]

theorem forall_mem_preorder {P : Node → Prop} {n : Node} :
    (∀ m ∈ n.preorder, P m) ↔ P n ∧ ∀ m ∈ preorderAll n.children, P m := by
  cases n with
  | mk k s cs => simp [Node.preorder, Node.children]

variable {cs : List Char} {a b : Cursor} {kind : NodeKind} {nodes : List Node}

/-- A node over placed children is placed with all below it. -/
theorem placed_branch (ha : a.On cs) (hab : a.Reaches b) (hshape : Shape a b kind nodes)
    (hnodes : ∀ m ∈ preorderAll nodes, Placed cs m) :
    ∀ m ∈ (Node.branch kind (a.spanTo b.offset) nodes).preorder, Placed cs m :=
  forall_mem_preorder.mpr ⟨⟨a, b, ha, hab, rfl, hshape⟩, hnodes⟩

theorem placed_leaf (ha : a.On cs) (hab : a.Reaches b) (hshape : Shape a b kind []) :
    ∀ m ∈ (Node.leaf kind (a.spanTo b.offset)).preorder, Placed cs m :=
  placed_branch ha hab hshape (by simp [preorderAll])

end Mdx

/-
The contents of block elements. Two of them either have no byte in common or one
stands in the other and starts behind it, since a tag is before each content
(`Node.contents_follow`). So of the contents that hold a byte the last one, in
the order of the regions, stands in all the others: it is the innermost.

A content stops where its last node does, and nodes of flow content take whole
lines: behind a content only blanks are left on the line (`content_stopsLine`).
-/
import Mdx.Proofs.Regions.Parsed
import Mdx.Proofs.Trace.Paragraph

namespace Mdx

open Cursor

/-- The span is the content of a block element of the tree. -/
def IsContent (root : Node) (s : Span) : Prop :=
  ∃ n ∈ root.preorder, ∃ e, n.kind = .blockElement e ∧ n.childrenSpan = some s

/-- The content holds the byte, and stands in every other content that does. -/
structure Innermost (root : Node) (o : Nat) (s : Span) : Prop where
  isContent : IsContent root s
  contains : s.contains o = true
  within : ∀ t, IsContent root t → t.contains o = true → s.Within t

/-- A content stands in another one, behind its start, or is behind it as a whole. -/
def Span.Follows (t s : Span) : Prop := (s.start < t.start ∧ t.stop ≤ s.stop) ∨ s.stop ≤ t.start

theorem field_content : FoundSpans.Field FoundSpans.content := ⟨rfl, fun _ _ => rfl⟩

/-- A node adds its content if it is a block element with children. -/
theorem ownFound_content (kind : NodeKind) (s : Span) (nodes : List Node) :
    (Node.mk kind (some s) nodes).ownFound.content =
      match kind with
      | .blockElement _ => (Node.mk kind (some s) nodes).childrenSpan.toList
      | _ => [] := by
  simp only [Node.ownFound, Node.span, Option.elim, FoundSpans.ofNode, Node.kind]
  cases kind with
  | blockElement => simp only; split <;> simp [*]
  | inlineElement | blockExpression | inlineExpression => simp only; split <;> rfl
  | _ => rfl

theorem mem_ownFound_content {n : Node} {s : Span} (h : n.span ≠ none) : s ∈ n.ownFound.content ↔
    ∃ e, n.kind = .blockElement e ∧ n.childrenSpan = some s := by
  obtain ⟨kind, span, nodes⟩ := n
  cases span with
  | none => exact absurd rfl h
  | some span =>
    rw [ownFound_content]
    cases kind <;> simp [Node.kind]

variable {cs : List Char} {root : Node}

/-- The regions keep the contents of the tree. -/
theorem mem_content_ofTree (h : ∀ m ∈ root.preorder, Placed cs m) {s : Span} :
    s ∈ (Regions.ofTree root).content.ranges ↔ IsContent root s := by
  have hspans := span_ne_none_of_placed h
  rw [Regions.ofTree_eq, RangeSet.mem_ranges_ofList, Node.mem_found field_content hspans]
  exact exists_congr fun n => and_congr_right fun hn => mem_ownFound_content (hspans n hn)

/-- Laid nodes reach from the start of the first one to the stop of the last one. -/
theorem Laid.childrenSpan_eq {p : Char → Bool} {x y : Cursor} {nodes : List Node} (h : Laid p x nodes y)
    (hne : nodes ≠ []) (kind : NodeKind) (span : Option Span) : ∃ x' y' : Cursor, x.Reaches x' ∧
      Laid p x' nodes y' ∧ y'.Reaches y ∧
      (Node.mk kind span nodes).childrenSpan = some (x'.spanTo y'.offset) := by
  obtain ⟨x', hx', hlaid, hfirst⟩ := h.fromFirst hne
  obtain ⟨y', hy', hlaid', hlast⟩ := hlaid.upToLast hne
  exact ⟨x', y', hx', hlaid', hy', by simp [Node.childrenSpan, Node.children, hfirst, hlast, spanTo]⟩

theorem content_inText {s : Span} (h : ∀ m ∈ root.preorder, Placed cs m) (hs : IsContent root s) :
    s.InText cs := by
  obtain ⟨n, hn, e, -, hcontent⟩ := hs
  obtain ⟨a, b, ha, hab, -, hshape⟩ := h n hn
  obtain ⟨kind, span, nodes⟩ := n
  by_cases hne : nodes = []
  · subst hne
    cases hcontent
  · obtain ⟨x, y, hx, hlaid, -, hspan⟩ := (hshape.laid hab).childrenSpan_eq hne kind span
    cases hcontent.symm.trans hspan
    exact Span.inText_spanTo (ha.reaches hx) hlaid.reaches

/-! ## Contents in contents -/

theorem Tag.lt_of_read {lt next : Cursor} {tag : Tag} (h : Tag.read lt = .ok (tag, next)) :
    lt.offset < next.offset := by
  have hne : lt.rest ≠ [] := by
    intro hnil
    have hdrop : (lt.drop 1).skipBlanks.rest = [] := by
      rw [skipBlanks, rest_skipWhile, rest_drop, hnil]
      rfl
    simp [Tag.read, Tag.readTagName, hdrop, bind, Except.bind] at h
  obtain ⟨t, ht, hp⟩ := Tag.path_read h hne
  exact hp.lt ht

/-- The contents stand between two offsets, and each one in those before it or behind them. -/
structure Follow (lo hi : Nat) (contents : List Span) : Prop where
  within : ∀ t ∈ contents, lo < t.start ∧ t.stop ≤ hi
  follows : contents.Pairwise fun s t => t.Follows s

namespace Follow

variable {lo mid hi : Nat} {s : Span} {ss ts : List Span}

theorem nil : Follow lo hi [] := ⟨by simp, .nil⟩

theorem widen {lo' hi' : Nat} (h : Follow lo hi ss) (hlo : lo' ≤ lo) (hhi : hi ≤ hi') : Follow lo' hi' ss := by
  refine ⟨fun t ht => ?_, h.follows⟩
  have := h.within t ht
  omega

theorem append (h : Follow lo mid ss) (h' : Follow mid hi ts) (hlo : lo ≤ mid) (hhi : mid ≤ hi) :
    Follow lo hi (ss ++ ts) where
  within := List.forall_mem_append.mpr
    ⟨(h.widen (Nat.le_refl _) hhi).within, (h'.widen hlo (Nat.le_refl _)).within⟩
  follows := by
    refine List.pairwise_append.mpr ⟨h.follows, h'.follows, fun s hs t ht => .inr ?_⟩
    have := (h.within s hs).2
    have := (h'.within t ht).1
    omega

/-- A content with those that stand in it. -/
theorem cons (h : Follow s.start s.stop ss) (hlo : lo < s.start) (hhi : s.stop ≤ hi) :
    Follow lo hi (s :: ss) where
  within := List.forall_mem_cons.mpr ⟨⟨hlo, hhi⟩, (h.widen (Nat.le_of_lt hlo) hhi).within⟩
  follows := .cons (fun t ht => .inl (h.within t ht)) h.follows

end Follow

/-- A node's content follows its start, if it is one, and those of its children stand in it. -/
theorem Shape.follow {a b : Cursor} {kind : NodeKind} {nodes : List Node} (h : Shape a b kind nodes)
    (hab : a.Reaches b)
    (hnodes : ∀ {p : Char → Bool} {c d : Cursor}, Laid p c nodes d →
      Follow c.offset d.offset (foundAll nodes).content) :
    Follow a.offset b.offset ((Node.mk kind (some (a.spanTo b.offset)) nodes).ownFound.content ++
      (foundAll nodes).content) := by
  have hlaid := h.laid hab
  rw [ownFound_content]
  cases h with
  | @blockElement tag closing x y _ hopen hinner hclose =>
    by_cases hne : nodes = []
    · subst hne
      simpa [Node.childrenSpan, Node.children] using hnodes hlaid
    · obtain ⟨x', y', hx', hlaid', hy', hcontent⟩ := hinner.childrenSpan_eq hne
        (.blockElement tag.element) (some (a.spanTo b.offset))
      simp only [hcontent]
      exact (hnodes hlaid').cons (Nat.lt_of_lt_of_le (Tag.lt_of_read hopen) hx'.le)
        (hy'.trans (Tag.reaches_read hclose)).le
  | blockTag => simpa [Node.childrenSpan, Node.children] using hnodes hlaid
  | _ => exact hnodes hlaid

mutual

/-- Along a placed tree, each content stands in those before it or behind them. -/
theorem Node.contents_follow : (n : Node) → (∀ m ∈ n.preorder, Placed cs m) → ∀ s, n.span = some s →
    Follow s.start s.stop n.found.content
  | .mk kind span nodes, h, s, hs => by
    obtain ⟨hnode, hnodes⟩ := forall_mem_preorder.mp h
    obtain ⟨a, b, ha, hab, hspan, hshape⟩ := hnode
    have heq := hs.symm.trans hspan
    cases heq
    simp only [Node.span] at hspan
    subst hspan
    exact hshape.follow hab fun hlaid => contentsAll_follow nodes hnodes hlaid

theorem contentsAll_follow {p : Char → Bool} {c d : Cursor} : (nodes : List Node) →
    (∀ m ∈ preorderAll nodes, Placed cs m) → Laid p c nodes d →
    Follow c.offset d.offset (foundAll nodes).content
  | [], _, _ => .nil
  | n :: nodes, h, hlaid => by
    cases hlaid with
    | cons hgap _ hab hspan hrest =>
      obtain ⟨hn, hnodes⟩ := forall_mem_preorderAll_cons.mp h
      have hfirst := Node.contents_follow n hn _ hspan
      have hlater := contentsAll_follow nodes hnodes hrest
      exact (hfirst.widen hgap.le (Nat.le_refl _)).append hlater (hgap.reaches.trans hab).le hrest.reaches.le

end

/-- Of two contents with a common byte one stands in the other, and starts behind it. -/
theorem Follow.nested {lo hi o : Nat} {contents : List Span} (h : Follow lo hi contents) {s t : Span}
    (hs : s ∈ contents) (ht : t ∈ contents) (hso : s.contains o = true) (hto : t.contains o = true) :
    s = t ∨ (s.start < t.start ∧ t.stop ≤ s.stop) ∨ (t.start < s.start ∧ s.stop ≤ t.stop) := by
  have hpair : contents.Pairwise fun s t => s = t ∨ t.Follows s ∨ s.Follows t :=
    h.follows.imp fun hst => .inr (.inl hst)
  have hflip : contents.Pairwise fun s t => t = s ∨ s.Follows t ∨ t.Follows s :=
    h.follows.imp fun hst => .inr (.inr hst)
  rw [Span.contains_iff] at hso hto
  rcases hpair.forall_of_forall_of_flip (fun x _ => .inl rfl) hflip hs ht with heq | hst | hts
  · exact .inl heq
  · exact .inr (.inl (hst.resolve_right (by omega)))
  · exact .inr (.inr (hts.resolve_right (by omega)))

/-- In a placed tree the last content that holds a byte is the innermost one. -/
theorem innermost_of_getLast? {o : Nat} {s r : Span} (h : ∀ m ∈ root.preorder, Placed cs m)
    (hr : root.span = some r)
    (hlast : ((Regions.ofTree root).content.ranges.filter (·.contains o)).getLast? = some s) :
    Innermost root o s := by
  have hsorted : (Regions.ofTree root).content.Sorted := by
    rw [Regions.ofTree_eq]
    exact RangeSet.sorted_ofList _
  have hfollow := Node.contents_follow root h r hr
  have hmem {t : Span} (ht : t ∈ (Regions.ofTree root).content.ranges) : t ∈ root.found.content := by
    rw [Regions.ofTree_eq] at ht
    exact RangeSet.mem_ranges_ofList.mp ht
  obtain ⟨front, hfront⟩ := List.getLast?_eq_some_iff.mp hlast
  obtain ⟨hs, hso⟩ := List.mem_filter.mp (List.mem_of_getLast? hlast)
  refine ⟨(mem_content_ofTree h).mp hs, hso, fun t ht hto => ?_⟩
  have ht := (mem_content_ofTree h).mpr ht
  have hle : t.le s = true := by
    have hpair := hsorted.filter (·.contains o)
    rw [hfront] at hpair
    have hin : t ∈ front ++ [s] := hfront ▸ List.mem_filter.mpr ⟨ht, hto⟩
    rcases List.mem_append.mp hin with hin | hin
    · exact (List.pairwise_append.mp hpair).2.2 t hin s (List.mem_singleton_self s)
    · rw [List.mem_singleton.mp hin]
      exact Span.le_iff.mpr (by omega)
  rw [Span.le_iff] at hle
  rcases hfollow.nested (hmem hs) (hmem ht) hso hto with rfl | hin | hin
  · exact ⟨Nat.le_refl _, Nat.le_refl _⟩
  · omega
  · exact ⟨Nat.le_of_lt hin.1, hin.2⟩

/-! ## Where contents stop -/

/-- Nothing but blanks is left of the line at the place, or a line starts there. -/
def Cursor.StopsLine (cs : List Char) (c : Cursor) : Prop :=
  c.isLineBlank = true ∨ c.offset = 0 ∨ precededBy cs c.offset '\n' = true

/-- If only blanks are left up to the next line that is read, what is before them stops its line. -/
theorem Cursor.StartsLine.stopsLine {c d : Cursor} {gap : List Char} (h : d.StartsLine cs) (hc : c.On cs)
    (hgap : c.Path gap d) (hblank : ∀ ch ∈ gap, isBlank ch = true) : c.StopsLine cs := by
  by_cases hlt : c.offset < d.offset
  · have hle : c.lineEnd.offset ≤ d.offset := by
      by_cases hnil : d.rest = []
      · have hend := (hc.reaches hgap.reaches).path_ofEnd.offset
        have hbound := (hc.reaches (path_lineEnd c).reaches).le
        simp only [ofEnd, hnil, byteLength_nil] at hend
        omega
      · exact Nat.le_of_lt ((h.isLine hnil).lineEnd_lt hc hlt)
    obtain ⟨v, rfl, -⟩ := (path_lineEnd c).split hgap hle
    exact .inl (List.all_eq_true.mpr fun ch hch => hblank ch (List.mem_append_left _ hch))
  · have hsame : c = d := Reaches.eq_of_offset_eq (.refl c) hgap.reaches (Nat.le_antisymm hgap.le (by omega))
    subst hsame
    rcases h.start with hzero | hfeed | hend
    · exact .inr (.inl hzero)
    · exact .inr (.inr hfeed)
    · have hnil : c.rest = [] := by
        have hlast := hc.path_ofEnd.offset
        simp only [ofEnd] at hlast
        exact byteLength_eq_zero (by omega)
      exact .inl (by simp [isLineBlank, line, hnil])

/-- The last of some laid nodes stops before a gap. -/
theorem Laid.stopOfLast {p : Char → Bool} {c d : Cursor} {nodes : List Node} {o : Nat} (h : Laid p c nodes d)
    (hlast : nodes.reverse.findSome? Node.stop? = some o) :
    ∃ (y : Cursor) (gap : List Char), c.Reaches y ∧ y.offset = o ∧ y.Path gap d ∧ ∀ ch ∈ gap, p ch = true := by
  induction h with
  | nil => cases hlast
  | @cons c a b d gap n nodes hgap hp hab hspan hrest ih =>
    have hb := hgap.reaches.trans hab
    cases hlater : nodes.reverse.findSome? Node.stop? with
    | some o' =>
      rw [List.reverse_cons, List.findSome?_append, hlater] at hlast
      obtain ⟨y, gap', hy, ho, hgap'⟩ := ih (hlater.trans hlast)
      exact ⟨y, gap', hb.trans hy, ho, hgap'⟩
    | none =>
      rw [List.reverse_cons, List.findSome?_append, hlater] at hlast
      simp [Node.stop?, hspan, spanTo] at hlast
      cases hrest with
      | nil hgap' hp' => exact ⟨b, _, hb, hlast, hgap', hp'⟩
      | cons _ _ _ hspan' _ =>
        have := List.findSome?_eq_none_iff.mp hlater _ (List.mem_reverse.mpr List.mem_cons_self)
        simp [Node.stop?, hspan'] at this

theorem stop_of_childrenSpan {n : Node} {s : Span} (h : n.childrenSpan = some s) :
    n.children.reverse.findSome? Node.stop? = some s.stop := by
  simp only [Node.childrenSpan, Option.bind_eq_bind, Option.bind_eq_some_iff, Option.pure_def,
    Option.some.injEq] at h
  obtain ⟨_, -, _, hstop, rfl⟩ := h
  exact hstop

/-- Nothing but blanks is left of the line on which the last of some lines' nodes stops. -/
theorem FlowTrace.content_stopsLine {math : Bool} {container : Option Tag} {next : Cursor}
    {inner : List Node} {closing : Option (Tag × Cursor)} {kind : NodeKind} {span s : Span}
    (h : FlowTrace math container next.nextLine inner closing) (hnext : next.On cs)
    (hs : (Node.branch kind span inner).childrenSpan = some s) :
    ∃ y : Cursor, y.On cs ∧ y.offset = s.stop ∧ y.StopsLine cs := by
  obtain ⟨last, hlast, hlaid, -⟩ := h.laid (startsLine_nextLine hnext)
  obtain ⟨y, gap, hy, hoffset, hgap, hblank⟩ := hlaid.stopOfLast (stop_of_childrenSpan hs)
  have hyOn := hnext.reaches ((reaches_nextLine next).trans hy)
  exact ⟨y, hyOn, hoffset, hlast.stopsLine hyOn hgap hblank⟩

/-- Nothing but blanks is left of the line on which a content stops. -/
theorem content_stopsLine {options : ParseOptions} (h : parse options cs = .ok root) {s : Span}
    (hs : IsContent root s) : ∃ y : Cursor, y.On cs ∧ y.offset = s.stop ∧ y.StopsLine cs := by
  have hall : ∀ n ∈ root.preorder, ∀ e, n.kind = .blockElement e → ∀ s, n.childrenSpan = some s →
      ∃ y : Cursor, y.On cs ∧ y.offset = s.stop ∧ y.StopsLine cs := by
    refine forall_mem_parse h ?_ ?_ ?_ ?_ ?_ ?_
    · intro front flow nodes _ _ _ e he
      cases he
    · intro dialect value span e he
      cases he
    · intro container line next n _ hopens e he
      have hnone := hopens.element?_eq_none
      rw [he] at hnone
      cases hnone
    · intro m hm e he
      rcases (forall_mem_preorder.mp hm).1 with hkind | hinline
      · rw [hkind] at he
        cases he
      · have := hinline.inline
        rw [he] at this
        cases this
    · intro container line next tag _ _ _ e _ s hs
      cases hs
    · intro container line next after tag closed inner hline hopens _ hinner e _ s hs
      exact hinner.content_stopsLine (hline.on.reaches hopens.reaches_next) hs
  obtain ⟨n, hn, e, he, hspan⟩ := hs
  exact hall n hn e he s hspan

end Mdx

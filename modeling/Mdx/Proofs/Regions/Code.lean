/-
The code that a document embeds, as a text. Each span of code is a tag with the
blanks beside it, an expression or one of its braces, and each of these is sealed
if the literals in it are strings (`IsWritten.sealed_code`). So the shadow of the
code is sealed up to a literal if those before it are strings (`IsLiteral.stands`).
-/
import Mdx.Proofs.Regions.Parsed
import Mdx.Proofs.Shadow.Sealed
import Mdx.Proofs.Tag.Sealed
import Mdx.Proofs.Tree.Element

namespace Mdx

open Cursor Script

/-- The text `body` stands at `s`, between the quotes of an attribute's value. -/
def IsLiteral (root : Node) (s : Span) (body : List Char) : Prop :=
  ∃ m ∈ root.preorder, ∃ e, m.kind.element? = some e ∧ ∃ a ∈ e.attributes, a.literal? = some body ∧
    s = ⟨a.span.stop - 1 - byteLength body, a.span.stop - 1⟩

variable {cs : List Char} {root n : Node} {s : Span}

theorem mem_marks_code_iff : ⟨.code, s⟩ ∈ n.marks ↔ s ∈ n.ownFound.code := by
  rw [Node.marks, List.mem_append, FoundSpans.marks]
  split <;> simp

/-! ## Spans of code -/

theorem Tag.Stands.sealed {tag : Tag} {a b : Cursor} (h : tag.Stands a b)
    (hstrings : ∀ a ∈ tag.attributes, a.IsString) : ∃ t, a.Path t b ∧ Sealed t := by
  obtain ⟨rest, hrest⟩ := List.head?_eq_some_iff.mp h.angle
  exact Tag.sealed_of_read hrest h.read hstrings

/-- A closing tag has no attributes. -/
theorem Tag.Stands.sealed_closing {tag : Tag} {a b : Cursor} (h : tag.Stands a b) (hclosing : tag.closing = true) :
    ∃ t, a.Path t b ∧ Sealed t := by
  obtain ⟨rest, hrest⟩ := List.head?_eq_some_iff.mp h.angle
  rcases Tag.opening_or_sealed hrest h.read with ⟨hopening, -⟩ | ⟨-, hsealed⟩
  · rw [hclosing] at hopening
    cases hopening
  · exact hsealed

theorem Attribute.span_mem_ranges (x : Attribute) : x.span ∈ x.ranges := by
  unfold ranges
  split <;> simp

/-- The attributes of a tag stand in it. -/
theorem Tag.Stands.stop_le {tag : Tag} {a b : Cursor} (h : tag.Stands a b) {x : Attribute}
    (hx : x ∈ tag.attributes) : x.span.stop ≤ b.offset := by
  obtain ⟨y, z, -, -, hz, hspan⟩ := (Tag.read_ok h.read).2.2 x hx x.span x.span_mem_ranges
  rw [hspan]
  exact hz.le

/-- What an element marks is its tags and blanks: what holds of these holds of it. -/
theorem ElementText.text_code {P : List Char → Prop} {e : Element} (h : ElementText cs e n)
    (he : n.kind.element? = some e) (hs : ⟨.code, s⟩ ∈ n.marks) (hblanks : ∀ t, (∀ ch ∈ t, isBlank ch = true) → P t)
    (happend : ∀ t u, P t → P u → P (t ++ u))
    (htags : ∀ (tag : Tag) (a b : Cursor), tag.Stands a b →
      (tag.element = e ∧ b.offset ≤ s.stop) ∨ tag.closing = true → ∃ t, a.Path t b ∧ P t) : P (slice cs s) := by
  cases h with
  | @single kind tag a b ha htag heq =>
    rw [Node.leaf, marks_element _ _ (show kind.element? = some e from he)] at hs
    have hmark : s = a.spanTo b.offset := by
      simpa [Node.childrenSpan, Node.children, elementMarks] using hs
    subst hmark
    obtain ⟨t, ht, hfirst⟩ := htags tag a b htag (.inl ⟨heq, Nat.le_refl _⟩)
    exact (ha.slice ht).symm ▸ hfirst
  | @pair kind tag closing a x y b nodes ha htag heq hlaid hclose hclosing =>
    rw [Node.branch, marks_element _ _ (show kind.element? = some e from he)] at hs
    have hopening : x.offset ≤ s.stop → ∃ t, a.Path t x ∧ P t := fun hle => htags tag a x htag (.inl ⟨heq, hle⟩)
    obtain ⟨v, hv, hlast⟩ := htags closing y b hclose (.inr hclosing)
    have hx := ha.reaches (Tag.reaches_read htag.read)
    by_cases hne : nodes = []
    · subst hne
      cases hlaid with
      | @nil _ _ gap hgap hblank =>
        have hmark : s = a.spanTo b.offset := by
          simpa [Node.childrenSpan, Node.children, elementMarks] using hs
        subst hmark
        obtain ⟨t, ht, hfirst⟩ := hopening (hgap.reaches.trans hv.reaches).le
        rw [ha.slice ((ht.trans hgap).trans hv)]
        exact happend _ _ (happend _ _ hfirst (hblanks gap hblank)) hlast
    · obtain ⟨x', y', gap, gap', hgap, hblank, hy, hgap', hblank', hcontent⟩ :=
        hlaid.gaps hne kind (some (a.spanTo b.offset))
      rw [hcontent, elementMarks] at hs
      have hmark : s = a.spanTo x'.offset ∨ s = y'.spanTo b.offset := by simpa [spanTo] using hs
      rcases hmark with rfl | rfl
      · obtain ⟨t, ht, hfirst⟩ := hopening hgap.le
        rw [ha.slice (ht.trans hgap)]
        exact happend _ _ hfirst (hblanks gap hblank)
      · rw [(hx.reaches hy).slice (hgap'.trans hv)]
        exact happend _ _ (hblanks gap' hblank') hlast

theorem ElementText.sealed_code {e : Element} (h : ElementText cs e n) (he : n.kind.element? = some e)
    (hs : ⟨.code, s⟩ ∈ n.marks) (hstrings : ∀ a ∈ e.attributes, a.span.stop ≤ s.stop → a.IsString) :
    Sealed (slice cs s) := by
  refine h.text_code he hs (fun _ => sealed_blanks) (fun _ _ => Sealed.append) fun tag a b htag hcase => ?_
  rcases hcase with ⟨rfl, hle⟩ | hclosing
  · exact htag.sealed fun x hx => hstrings x hx (Nat.le_trans (htag.stop_le hx) hle)
  · exact htag.sealed_closing hclosing

/-- The first tag of an element stands at the start of one of its marks. -/
theorem ElementText.opening {e : Element} (h : ElementText cs e n) (he : n.kind.element? = some e) :
    ∃ (tag : Tag) (a x : Cursor) (s : Span), a.On cs ∧ tag.Stands a x ∧ tag.element = e ∧ ⟨.code, s⟩ ∈ n.marks ∧
      s.start = a.offset ∧ x.offset ≤ s.stop := by
  cases h with
  | @single kind tag a b ha htag heq =>
    refine ⟨tag, a, b, a.spanTo b.offset, ha, htag, heq, ?_, rfl, Nat.le_refl _⟩
    rw [Node.leaf, marks_element _ _ (show kind.element? = some e from he)]
    exact List.mem_singleton_self _
  | @pair kind tag closing a x y b nodes ha htag heq hlaid hclose _ =>
    rw [Node.branch, marks_element _ _ (show kind.element? = some e from he)]
    by_cases hne : nodes = []
    · subst hne
      exact ⟨tag, a, x, a.spanTo b.offset, ha, htag, heq, List.mem_singleton_self _, rfl,
        (hlaid.reaches.trans (Tag.reaches_read hclose.read)).le⟩
    · obtain ⟨x', y', _, _, hgap, -, -, -, -, hcontent⟩ := hlaid.gaps hne kind (some (a.spanTo b.offset))
      rw [hcontent]
      exact ⟨tag, a, x, a.spanTo x'.offset, ha, htag, heq, List.mem_cons_self, rfl, hgap.le⟩

/-- What an expression marks is itself, or its braces. -/
theorem ExpressionText.text_code {P : List Char → Prop} {e : Expression} (h : ExpressionText cs e n)
    (he : n.kind.expression? = some e) (hs : ⟨.code, s⟩ ∈ n.marks) (hopening : P ['\x7b']) (hclosing : P ['\x7d'])
    (hbraces : ∀ body, Script.Braced ('\x7b' :: body ++ ['\x7d']) e.isEmpty → P ('\x7b' :: body ++ ['\x7d'])) :
    P (slice cs s) := by
  cases h with
  | @braces kind a x y b body ha hopen hbody hclose heq hbraced =>
    rw [Node.leaf, marks_expression _ _ (show kind.expression? = some e from he), expressionMarks,
      heq] at hs
    have hx := ha.reaches hopen.reaches
    split at hs
    · have hmark : s = a.spanTo x.offset ∨ s = y.spanTo b.offset := by simpa [spanTo] using hs
      rcases hmark with rfl | rfl
      · exact (ha.slice hopen).symm ▸ hopening
      · exact ((hx.reaches hbody.reaches).slice hclose).symm ▸ hclosing
    · have hmark : s = a.spanTo b.offset := by simpa using hs
      subst hmark
      exact (ha.slice ((hopen.trans hbody).trans hclose)).symm ▸ hbraces body hbraced

theorem ExpressionText.sealed_code {e : Expression} (h : ExpressionText cs e n)
    (he : n.kind.expression? = some e) (hs : ⟨.code, s⟩ ∈ n.marks) : Sealed (slice cs s) :=
  h.text_code he hs (sealed_singleton (by decide)) (sealed_singleton (by decide)) fun _ => Braced.sealed

/-- What marks code is an element or an expression. -/
theorem code_mark_cases (hs : ⟨.code, s⟩ ∈ n.marks) :
    (∃ e, n.kind.element? = some e) ∨ ∃ e, n.kind.expression? = some e := by
  rw [mem_marks_code_iff] at hs
  obtain ⟨kind, span, nodes⟩ := n
  cases span with
  | none => simp [Node.ownFound, Node.span] at hs
  | some span =>
    cases kind with
    | blockElement e | inlineElement e => exact .inl ⟨e, rfl⟩
    | blockExpression e | inlineExpression e => exact .inr ⟨e, rfl⟩
    | _ => cases hs

/-- A span of code is sealed if the literals in it are strings. -/
theorem IsWritten.sealed_code (h : IsWritten cs n) (hs : ⟨.code, s⟩ ∈ n.marks)
    (hstrings : ∀ e, n.kind.element? = some e → ∀ a ∈ e.attributes, a.span.stop ≤ s.stop → a.IsString) :
    Sealed (slice cs s) := by
  rcases code_mark_cases hs with ⟨e, he⟩ | ⟨e, he⟩
  · exact (h.element e he).sealed_code he hs (hstrings e he)
  · exact (h.expression e he).sealed_code he hs

/-! ## The shadow of the code -/

/-- A byte of a region is in a span that a node marks for it. -/
theorem contains_found {field : FoundSpans → List Span} {r : Region} (hf : FoundSpans.Field field)
    (hmarks : ∀ {n : Node} {s}, ⟨r, s⟩ ∈ n.marks ↔ s ∈ field n.ownFound) (h : ∀ m ∈ root.preorder, Placed cs m)
    {o : Nat} :
    (RangeSet.ofList (field root.found)).contains o = true ↔
      ∃ m ∈ root.preorder, ∃ s, ⟨r, s⟩ ∈ m.marks ∧ s.contains o = true := by
  rw [RangeSet.contains_ofList]
  simp only [Node.mem_found hf (span_ne_none_of_placed h), hmarks]
  constructor
  · rintro ⟨s, ⟨m, hm, hs⟩, ho⟩
    exact ⟨m, hm, s, hs, ho⟩
  · rintro ⟨m, hm, s, hs, ho⟩
    exact ⟨s, ⟨m, hm, hs⟩, ho⟩

theorem contains_code_ofTree (h : ∀ m ∈ root.preorder, Placed cs m) {o : Nat} :
    (Regions.ofTree root).code.contains o = true ↔
      ∃ m ∈ root.preorder, ∃ s, ⟨.code, s⟩ ∈ m.marks ∧ s.contains o = true := by
  rw [Regions.ofTree_eq]
  exact contains_found field_code mem_marks_code_iff h

/-- A span that a node marks as code. -/
def IsCode (root : Node) (s : Span) : Prop := ∃ m ∈ root.preorder, ⟨.code, s⟩ ∈ m.marks

section Parsed

variable {options : ParseOptions} {body : List Char}

/-- All code stands in the spans that the nodes mark. -/
theorem parts_code (h : parse options cs = .ok root) :
    Parts cs (Regions.ofTree root).code.merged (IsCode root) := by
  obtain ⟨-, hspan, -, hplaced⟩ := parse_ok h
  have hmarked := marked_preorder root hplaced _ hspan
  have hmem : ∀ {s}, IsCode root s → ⟨.code, s⟩ ∈ root.preorder.flatMap Node.marks := by
    rintro s ⟨m, hm, hs⟩
    exact List.mem_flatMap.mpr ⟨m, hm, hs⟩
  refine ⟨fun u hu => hmarked.inText _ (hmem hu), fun u v hu hv hne => ?_, fun o ch _ ho => ?_⟩
  · exact hmarked.disjoint_of_ne (hmem hu) (hmem hv) fun heq => hne (congrArg Mark.span heq)
  · obtain ⟨m, hm, s, hs, hcontains⟩ := (contains_code_ofTree hplaced).mp ho
    exact ⟨s, ⟨m, hm, hs⟩, hcontains⟩

/-- A span of code is as it stands in the shadow. -/
theorem IsCode.shadow_eq (hs : IsCode root s) (h : parse options cs = .ok root) :
    shadowFrom (Regions.ofTree root).code.merged s.start (slice cs s) = slice cs s := by
  have hplaced := (parse_ok h).placed
  obtain ⟨a, b, t, ha, ht, rfl⟩ := ((parts_code h).inText s hs).path
  rw [ha.slice ht]
  refine shadowFrom_eq_of_shows ha ht fun o _ _ hle hlt => ?_
  obtain ⟨m, hm, hs⟩ := hs
  exact (contains_code_ofTree hplaced).mpr ⟨m, hm, _, hs, Span.contains_iff.mpr ⟨hle, hlt⟩⟩

/-- The shadow of the code is sealed up to where a span of code starts, if the literals up to there are
strings. -/
theorem IsCode.sealed_before (hs : IsCode root s) (hne : s.start < s.stop) (h : parse options cs = .ok root)
    {c : Cursor} {t : List Char} (hp : (ofText cs).Path t c) (hc : c.offset = s.start)
    (hstrings : ∀ u body, IsLiteral root u body → u.stop ≤ s.start → IsStringBody body) :
    Sealed (shadowFrom (Regions.ofTree root).code.merged 0 t) := by
  have hparts := parts_code h
  refine hparts.sealed (on_ofText cs) hp (fun u _ hu => absurd hu (Nat.not_lt_zero _))
    (hc ▸ hparts.outside_start hs hne) fun u hu hle => ?_
  rw [hu.shadow_eq h]
  obtain ⟨m, hm, hmark⟩ := hu
  refine (isWritten_of_parse h m hm).sealed_code hmark fun e he a ha hstop body hbody => ?_
  refine hstrings _ body ⟨m, hm, e, he, a, ha, hbody, rfl⟩ ?_
  show a.span.stop - 1 ≤ s.start
  omega

/-- How the literal `body` at `s` stands in the shadow of the code: between its quotes, which are code
as well. -/
structure LiteralStands (cs : List Char) (code : RangeSet) (s : Span) (body front : List Char) (q : Char)
    (back : List Char) : Prop where
  shadow_eq : shadow code cs = front ++ (q :: (body ++ [q]) ++ back)
  quote : IsQuoteMark q
  notMem : q ∉ body
  start : s.start = byteLength front + 1
  stop : s.stop = s.start + byteLength body
  slice_eq : slice cs ⟨s.start - 1, s.stop + 1⟩ = q :: (body ++ [q])
  contains : ∀ o, s.start - 1 ≤ o → o < s.stop + 1 → code.contains o = true

/-- A quoted text stands in the shadow as it is, if all of its tag is code. -/
theorem literalStands_of_path {code : RangeSet} {a x : Cursor} {before front back : List Char} {q : Char}
    (hbefore : (ofText cs).Path before a) (hp : a.Path (front ++ (q :: (body ++ [q]) ++ back)) x)
    (hq : IsQuoteMark q) (hne : q ∉ body) (hcontains : ∀ o, a.offset ≤ o → o < x.offset → code.contains o = true)
    (hstart : s.start = a.offset + byteLength front + 1) (hstop : s.stop = s.start + byteLength body) :
    LiteralStands cs code s body (shadowFrom code.merged 0 before ++ front) q
      (back ++ shadowFrom code.merged x.offset x.rest) := by
  have ha : a.On cs := ⟨before, hbefore⟩
  have hsize := hq.utf8Size_eq
  have hoffset : a.offset = byteLength before := by simpa [ofText] using hbefore.offset
  obtain ⟨hopen, hlater⟩ := hp.at_length
  obtain ⟨hquoted, hbehind⟩ := hlater.at_length
  have hfirst := hopen.offset
  have hsecond := hquoted.offset
  simp only [byteLength_cons, byteLength_append, byteLength_nil, hsize] at hsecond
  have hle := hbehind.le
  refine ⟨?_, hq, hne, ?_, hstop, ?_, fun o hlo hhi => hcontains o (by omega) (by omega)⟩
  · have hself : shadowFrom code.merged a.offset _ = _ := shadowFrom_eq_of_shows ha hp fun o _ _ => hcontains o
    have hcs : cs = before ++ (front ++ (q :: (body ++ [q]) ++ back) ++ x.rest) := by
      simpa [ofText, hp.rest] using hbefore.rest
    have happend := shadowFrom_append code.merged 0 before (front ++ (q :: (body ++ [q]) ++ back) ++ x.rest)
    rw [← hcs, Nat.zero_add, ← hoffset, shadowFrom_append, hself, ← hp.offset] at happend
    simp only [shadow, happend, List.append_assoc]
  · rw [hstart, byteLength_append, byteLength_shadowFrom, hoffset]
  · rw [← (ha.reaches hopen.reaches).slice hquoted]
    congr 1
    rw [Span.mk.injEq]
    simp only [spanTo]
    omega

/-- A literal stands in the shadow of the code behind a sealed text, if the literals before it are
strings. -/
theorem IsLiteral.stands (hs : IsLiteral root s body) (h : parse options cs = .ok root)
    (hstrings : ∀ u body, IsLiteral root u body → u.stop ≤ s.start → IsStringBody body) :
    ∃ front q back, LiteralStands cs (Regions.ofTree root).code s body front q back ∧ Sealed front := by
  obtain ⟨m, hm, e, he, c, hc, hbody, rfl⟩ := hs
  obtain ⟨tag, a, x, u, ⟨before, hbefore⟩, htag, rfl, hmark, hstart, hstop⟩ :=
    ((isWritten_of_parse h m hm).element e he).opening he
  obtain ⟨rest, hrest⟩ := List.head?_eq_some_iff.mp htag.angle
  have hle := Tag.start_le_of_read hrest htag.read hc hbody
  obtain ⟨front, q, back, hp, hq, hne, hfront, hend⟩ := Tag.literal_of_read hrest htag.read hc hbody
    fun b hb hearlier text htext => hstrings _ text ⟨m, hm, _, he, b, hb, htext, rfl⟩
      (Nat.le_trans (Nat.le_trans (Nat.sub_le _ 1) hearlier) hle)
  have hstands := htag.stop_le hc
  simp only [byteLength_append, byteLength_cons, byteLength_nil, hq.utf8Size_eq] at hend
  have hsealed : Sealed (shadowFrom (Regions.ofTree root).code.merged 0 before) := by
    refine IsCode.sealed_before ⟨m, hm, hmark⟩ (by omega) h hbefore hstart.symm fun w text hw hbehind =>
      hstrings w text hw (Nat.le_trans hbehind ?_)
    show u.start ≤ c.span.stop - 1 - byteLength body
    omega
  refine ⟨_, q, _, literalStands_of_path hbefore hp hq hne (fun o hlo hhi => ?_) ?_ ?_, hsealed.append hfront⟩
  · exact (contains_code_ofTree (parse_ok h).placed).mpr
      ⟨m, hm, u, hmark, Span.contains_iff.mpr ⟨by omega, by omega⟩⟩
  · show c.span.stop - 1 - byteLength body = _
    omega
  · show c.span.stop - 1 = c.span.stop - 1 - byteLength body + byteLength body
    omega

end Parsed

end Mdx

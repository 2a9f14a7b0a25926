/-
How the lines of a document are read, as a relation. `Opens` says what a line can
open and under which tests, `FlowTrace` strings lines together up to the end of
the text or the tag that closes the container, and every document that parses has
such a trace (`parse_trace`).

A node of the tree was opened by a line, or is the content of an element, or
stands below a node that was read whole, so a property of all nodes has one case
for each (`forall_mem_parse`).
-/
import Mdx.Proofs.Progress.Document
import Mdx.Proofs.Trace.Inline

namespace Mdx

open Cursor

theorem Cursor.reaches_skipIndent (c : Cursor) : c.Reaches c.skipIndent := (path_skipWhile c isIndent).reaches

/-- A line of the text starts at the place: the text starts there or a line feed is before it, and
there is something behind it. -/
structure Cursor.IsLine (cs : List Char) (c : Cursor) : Prop where
  on : c.On cs
  start : c.offset = 0 ∨ precededBy cs c.offset '\n' = true
  nonempty : c.rest ≠ []

theorem Cursor.StartsLine.isLine {cs : List Char} {c : Cursor} (h : c.StartsLine cs) (hne : c.rest ≠ []) :
    c.IsLine cs := by
  refine ⟨h.on, ?_, hne⟩
  rcases h.start with hzero | hfeed | hend
  · exact .inl hzero
  · exact .inr hfeed
  · have hlast : byteLength cs = c.offset + byteLength c.rest := h.on.path_ofEnd.offset
    exact absurd (byteLength_eq_zero (by omega)) hne

/-- What the line opens whose first character behind the indent is at `c`, with the tests that it
took. -/
inductive Opens (math : Bool) (container : Option Tag) (line c : Cursor) : Opening → Prop
  | moduleBlock {n : Node} {next : Cursor} :
    container = none → c.offset = line.offset → startsModule c = true → readModule c = .ok (n, next) →
    Opens math container line c (.block n next)
  | fenced {fence : Fence} :
    fenceAt? math c = some fence →
    Opens math container line c
      (.block (readFenced fence container c).1 (readFenced fence container c).2)
  | heading {depth : Nat} {n : Node} {next : Cursor} :
    headingDepth? c = some depth → readHeading math depth c = .ok (n, next) →
    Opens math container line c (.block n next)
  | thematicBreak :
    isThematicBreak c = true →
    Opens math container line c
      (.block (.leaf .thematicBreak (c.spanTo c.trimmedLineEnd.offset)) c.nextLine)
  | element {tag : Tag} {next : Cursor} :
    flowTag? c = .ok (some (tag, next)) → Opens math container line c (.element tag next)
  | expression {n : Node} {next : Cursor} :
    readFlowExpression? c = .ok (some (n, next)) → Opens math container line c (.block n next)
  /-- A paragraph is what is left when all other tests have failed. -/
  | paragraph {n : Node} {next : Cursor} :
    fenceAt? math c = none → headingDepth? c = none → isThematicBreak c = false → flowTag? c = .ok none →
    readParagraph math container c = .ok (n, next) → Opens math container line c (.block n next)

theorem opens_of_openLine {math : Bool} {container : Option Tag} {line c : Cursor} {opening : Opening}
    (h : openLine math container line c = .ok opening) : Opens math container line c opening := by
  unfold openLine at h
  split at h
  · next hmodule =>
    obtain ⟨⟨n, next⟩, hread, h⟩ := ok_of_bind h
    cases h
    simp only [Bool.and_eq_true, Option.isNone_iff_eq_none, beq_iff_eq] at hmodule
    exact .moduleBlock hmodule.1.1 hmodule.1.2 hmodule.2 hread
  split at h
  · next fence hfence =>
    cases h
    exact .fenced hfence
  next hfence =>
  split at h
  · next depth hdepth =>
    obtain ⟨⟨n, next⟩, hread, h⟩ := ok_of_bind h
    cases h
    exact .heading hdepth hread
  next hdepth =>
  split at h
  · next hbreak =>
    cases h
    exact .thematicBreak hbreak
  next hbreak =>
  obtain ⟨found, htag, h⟩ := ok_of_bind h
  match found, htag, h with
  | some (tag, next), htag, h =>
    cases h
    exact .element htag
  | none, htag, h =>
    obtain ⟨found, hexpr, h⟩ := ok_of_bind h
    match found, hexpr, h with
    | some (n, next), hexpr, h =>
      cases h
      exact .expression hexpr
    | none, _, h =>
      obtain ⟨⟨n, next⟩, hread, h⟩ := ok_of_bind h
      cases h
      exact .paragraph hfence hdepth (by simpa using hbreak) htag hread

/-! ## The kinds of what is read -/

/-- The kinds of fenced content. -/
def NodeKind.isFenced : NodeKind → Bool
  | .code _ | .math => true
  | _ => false

theorem NodeKind.element?_of_isFenced {kind : NodeKind} (h : kind.isFenced = true) :
    kind.element? = none := by
  revert h
  cases kind <;> simp [isFenced, element?]

section Kinds

variable {math : Bool} {container : Option Tag} {c next : Cursor} {n : Node}

theorem kind_readModule (h : readModule c = .ok (n, next)) : n.kind = .moduleBlock := by
  unfold readModule at h
  obtain ⟨⟨⟩, -, h⟩ := ok_of_bind h
  cases h
  rfl

theorem kind_readFenced (fence : Fence) (container : Option Tag) (c : Cursor) :
    (readFenced fence container c).1.kind.isFenced = true := by
  simp only [readFenced]
  split <;> rfl

theorem kind_readHeading {depth : Nat} (h : readHeading math depth c = .ok (n, next)) :
    n.kind = .heading depth := by
  unfold readHeading at h
  obtain ⟨⟨nodes, stop⟩, -, h⟩ := ok_of_bind h
  cases h
  rfl

theorem kind_readFlowExpression? (h : readFlowExpression? c = .ok (some (n, next))) :
    ∃ e s, n = .leaf (.blockExpression e) s := by
  unfold readFlowExpression? at h
  split at h
  · obtain ⟨close, -, h⟩ := ok_of_bind h
    dsimp only at h
    split at h
    · cases h
      exact ⟨_, _, rfl⟩
    · cases h
  · cases h

theorem kind_readParagraph (h : readParagraph math container c = .ok (n, next)) : n.kind = .paragraph := by
  unfold readParagraph at h
  obtain ⟨⟨nodes, stop⟩, -, h⟩ := ok_of_bind h
  cases h
  rfl

end Kinds

/-- The line is neither blank nor a closing tag, and opens something. -/
structure LineOpens (math : Bool) (container : Option Tag) (line : Cursor) (opening : Opening) : Prop where
  notBlank : line.skipIndent.isLineEnd = false
  notClosing : line.skipIndent.startsWith "</" = false
  opens : openLine math container line line.skipIndent = .ok opening

/-- Reading the lines from `line` on gives the nodes, and the tag that closed the container with the
place behind it. -/
inductive FlowTrace (math : Bool) :
    (container : Option Tag) → (line : Cursor) → List Node → Option (Tag × Cursor) → Prop
  | ended {line : Cursor} : line.rest = [] → FlowTrace math none line [] none
  | skip {container : Option Tag} {line : Cursor} {nodes : List Node} {closing : Option (Tag × Cursor)} :
    line.rest ≠ [] → line.skipIndent.isLineEnd = true →
    FlowTrace math container line.nextLine nodes closing → FlowTrace math container line nodes closing
  | closed {tag closing : Tag} {line after : Cursor} :
    line.skipIndent.startsWith "</" = true →
    readClosing (some tag) line.skipIndent = .ok (closing, after) →
    FlowTrace math (some tag) line [] (some (closing, after))
  | block {container : Option Tag} {line next : Cursor} {n : Node} {nodes : List Node}
      {closing : Option (Tag × Cursor)} :
    LineOpens math container line (.block n next) → FlowTrace math container next nodes closing →
    FlowTrace math container line (n :: nodes) closing
  | selfClosing {container : Option Tag} {line next : Cursor} {tag : Tag} {nodes : List Node}
      {closing : Option (Tag × Cursor)} :
    LineOpens math container line (.element tag next) → tag.selfClosing = true →
    FlowTrace math container next.nextLine nodes closing →
    FlowTrace math container line (.leaf (.blockElement tag.element) tag.span :: nodes) closing
  | element {container : Option Tag} {line next after : Cursor} {tag closed : Tag}
      {inner nodes : List Node} {closing : Option (Tag × Cursor)} :
    LineOpens math container line (.element tag next) → tag.selfClosing = false →
    FlowTrace math (some tag) next.nextLine inner (some (closed, after)) →
    FlowTrace math container after.nextLine nodes closing →
    FlowTrace math container line
      (.branch (.blockElement tag.element) ⟨tag.span.start, closed.span.stop⟩ inner :: nodes) closing

section Reader

variable {cs : List Char} {math : Bool} {fuel : Nat} {container : Option Tag} {line : Cursor}
  {opening : Opening}

theorem LineOpens.on_start (_ : LineOpens math container line opening) (hline : line.On cs) :
    line.skipIndent.On cs := hline.reaches (reaches_skipIndent line)

theorem LineOpens.reads (h : LineOpens math container line opening) (hline : line.On cs) :
    opening.Reads cs line.skipIndent :=
  openLine_ok h.opens (h.on_start hline) (rest_ne_nil_of_isLineEnd h.notBlank)

theorem LineOpens.takesLines {n : Node} {next : Cursor} (h : LineOpens math container line (.block n next))
    (hline : line.On cs) : TakesLines cs line.skipIndent n next := by
  cases h.reads hline with
  | block hn => exact hn

/-- The tag that opens an element stands alone on its line, and is no closing tag. -/
theorem LineOpens.tag {tag : Tag} {next : Cursor} (h : LineOpens math container line (.element tag next)) :
    Tag.startsAt line.skipIndent = true ∧ Tag.read line.skipIndent = .ok (tag, next) ∧
      next.isLineBlank = true := by
  cases opens_of_openLine h.opens with
  | element htag =>
    refine ⟨?_, flowTag?_ok htag⟩
    unfold flowTag? at htag
    split at htag
    · assumption
    · cases htag

theorem LineOpens.reaches_next {tag : Tag} {next : Cursor}
    (h : LineOpens math container line (.element tag next)) : line.Reaches next :=
  (reaches_skipIndent line).trans (Tag.reaches_read h.tag.2.1)

/-- A construct that is read whole is no element. -/
theorem LineOpens.element?_eq_none {n : Node} {next : Cursor}
    (h : LineOpens math container line (.block n next)) : n.kind.element? = none := by
  cases opens_of_openLine h.opens with
  | moduleBlock _ _ _ hread => rw [kind_readModule hread]; rfl
  | @fenced fence _ => exact NodeKind.element?_of_isFenced (kind_readFenced fence container line.skipIndent)
  | heading _ hread => rw [kind_readHeading hread]; rfl
  | thematicBreak => rfl
  | expression hread =>
    obtain ⟨e, s, rfl⟩ := kind_readFlowExpression? hread
    rfl
  | paragraph _ _ _ _ hread => rw [kind_readParagraph hread]; rfl

/-- Only a fence opens fenced content. -/
theorem LineOpens.fenced {n : Node} {next : Cursor} (h : LineOpens math container line (.block n next))
    (hkind : n.kind.isFenced = true) : ∃ fence, fenceAt? math line.skipIndent = some fence ∧
      readFenced fence container line.skipIndent = (n, next) := by
  cases opens_of_openLine h.opens with
  | moduleBlock _ _ _ hread => rw [kind_readModule hread] at hkind; cases hkind
  | @fenced fence hfence => exact ⟨fence, hfence, rfl⟩
  | heading _ hread => rw [kind_readHeading hread] at hkind; cases hkind
  | thematicBreak => cases hkind
  | expression hread =>
    obtain ⟨e, s, rfl⟩ := kind_readFlowExpression? hread
    cases hkind
  | paragraph _ _ _ _ hread => rw [kind_readParagraph hread] at hkind; cases hkind

/-- A line that opens a paragraph does not interrupt one, and the paragraph is read at it. -/
theorem LineOpens.paragraph {n : Node} {next : Cursor} (h : LineOpens math container line (.block n next))
    (hkind : n.kind = .paragraph) : interrupts math container line = false ∧
      readParagraph math container line.skipIndent = .ok (n, next) := by
  cases opens_of_openLine h.opens with
  | moduleBlock _ _ _ hread => rw [kind_readModule hread] at hkind; cases hkind
  | @fenced fence _ =>
    have := kind_readFenced fence container line.skipIndent
    rw [hkind] at this
    cases this
  | heading _ hread => rw [kind_readHeading hread] at hkind; cases hkind
  | thematicBreak => cases hkind
  | expression hread =>
    obtain ⟨e, s, rfl⟩ := kind_readFlowExpression? hread
    cases hkind
  | paragraph hfence hdepth hbreak htag hread =>
    refine ⟨?_, hread⟩
    simp [interrupts, h.notBlank, h.notClosing, hfence, hdepth, hbreak, htag]

theorem flowTrace_of_readFlow (hline : line.On cs) (hfuel : line.rest.length < fuel) {nodes : List Node}
    {closing : Option (Tag × Cursor)} (h : readFlow math fuel container line = .ok (nodes, closing)) :
    FlowTrace math container line nodes closing := by
  induction fuel generalizing container line nodes closing with
  | zero => omega
  | succ fuel ih =>
    have hstart := reaches_skipIndent line
    simp only [readFlow, flowRound] at h
    split at h
    · next hnil =>
      cases container with
      | some tag => cases h
      | none =>
        cases h
        exact .ended (List.isEmpty_iff.mp hnil)
    next hne =>
    have hne : line.rest ≠ [] := fun hnil => hne (List.isEmpty_iff.mpr hnil)
    split at h
    · next hend =>
      have hlt := length_nextLine_lt hne
      exact .skip hne hend (ih (hline.reaches (reaches_nextLine line)) (by omega) h)
    next hend =>
    split at h
    · next hslash =>
      obtain ⟨⟨closing', after⟩, hclosing, h⟩ := ok_of_bind h
      cases h
      obtain ⟨tag, rfl, -⟩ := readClosing_ok hclosing
      exact .closed hslash hclosing
    next hslash =>
    obtain ⟨opening, hopen, h⟩ := ok_of_bind h
    have hopens : LineOpens math container line opening := ⟨by simpa using hend, by simpa using hslash, hopen⟩
    have hle := hstart.length_le
    have split_off : ∀ (n : Node) (next : Cursor),
        (readFlow math fuel container next >>= fun found => pure (n :: found.1, found.2)) =
          .ok (nodes, closing) →
        ∃ later, nodes = n :: later ∧ readFlow math fuel container next = .ok (later, closing) := by
      intro n next h
      obtain ⟨⟨later, closing'⟩, hlater, h⟩ := ok_of_bind h
      cases h
      exact ⟨later, rfl, hlater⟩
    cases hopens.reads hline with
    | @block n next hn =>
      obtain ⟨later, rfl, hlater⟩ := split_off n next h
      obtain ⟨b, gap, hb, -, hgap, -⟩ := hn.ends
      have hlt := hn.shorter
      exact .block hopens
        (ih (hline.reaches (hstart.trans (hb.trans hgap.reaches))) (by omega) hlater)
    | @element tag next hread hblank =>
      have hnext := hstart.trans (Tag.reaches_read hread)
      have behind : ∀ {x : Cursor}, next.Reaches x →
          x.nextLine.On cs ∧ x.nextLine.rest.length < fuel := by
        intro x hx
        have hlt := length_nextLine_lt_of_reaches hne (hnext.trans hx)
        exact ⟨hline.reaches ((hnext.trans hx).trans (reaches_nextLine x)), by omega⟩
      obtain ⟨hon, hlt⟩ := behind (.refl next)
      dsimp only at h
      split at h
      · next hself =>
        obtain ⟨later, rfl, hlater⟩ := split_off _ _ h
        exact .selfClosing hopens hself (ih hon hlt hlater)
      · next hself =>
        obtain ⟨⟨inner, found⟩, hinner, h⟩ := ok_of_bind h
        obtain ⟨hflow, -⟩ := readFlow_ok cs math fuel hon hlt hinner
        cases hflow with
        | ended hc => cases hc
        | closed _ hlaid hread' =>
          obtain ⟨later, rfl, hlater⟩ := split_off _ _ h
          have hafter := (reaches_nextLine next).trans (hlaid.reaches.trans (Tag.reaches_read hread'))
          obtain ⟨hon', hlt'⟩ := behind hafter
          exact .element hopens (by simpa using hself) (ih hon hlt hinner) (ih hon' hlt' hlater)

end Reader

/-! ## Where a trace ends -/

/-- The line at which flow content ends: the text ends there, or the tag stands there that closes
the container. -/
inductive FlowEnd : (container : Option Tag) → (last : Cursor) → Option (Tag × Cursor) → Prop
  | ended {last : Cursor} : last.rest = [] → FlowEnd none last none
  | closed {tag closing : Tag} {last after : Cursor} :
    last.skipIndent.startsWith "</" = true →
    readClosing (some tag) last.skipIndent = .ok (closing, after) →
    FlowEnd (some tag) last (some (closing, after))

section Trace

variable {cs : List Char} {math : Bool} {container : Option Tag} {line : Cursor} {nodes : List Node}
  {closing : Option (Tag × Cursor)}

theorem FlowEnd.reaches_after {tag : Tag} {last after : Cursor}
    (h : FlowEnd container last (some (tag, after))) : last.Reaches after := by
  cases h with
  | closed _ hread =>
    obtain ⟨_, -, hread, -, -⟩ := readClosing_ok hread
    exact (reaches_skipIndent last).trans (Tag.reaches_read hread)

/-- A node that a line opens, before others that are laid out behind it. -/
theorem laid_cons_line {n : Node} {b next last : Cursor} (hb : line.skipIndent.Reaches b)
    (hspan : n.span = some (line.skipIndent.spanTo b.offset)) {gap : List Char} (hgap : b.Path gap next)
    (hblank : ∀ ch ∈ gap, isBlank ch = true) (h : Laid isBlank next nodes last) :
    Laid isBlank line (n :: nodes) last := by
  obtain ⟨indent, hindent, hall⟩ := path_skipIndent line
  exact .cons hindent hall hb hspan (.before hgap hblank h)

/-- The nodes of flow content are laid out up to the line at which it ends. -/
theorem FlowTrace.laid (h : FlowTrace math container line nodes closing) (hline : line.StartsLine cs) :
    ∃ last, last.StartsLine cs ∧ Laid isBlank line nodes last ∧ FlowEnd container last closing := by
  induction h with
  | @ended line hnil => exact ⟨line, hline, .nil (.refl line) (by simp), .ended hnil⟩
  | @skip _ line _ _ _ hend _ ih =>
    obtain ⟨last, hlast, hlaid, hflow⟩ := ih (startsLine_nextLine hline.on)
    obtain ⟨b, hb, hall⟩ := path_nextLine_of_blank (isLineBlank_of_indent hend)
    exact ⟨last, hlast, .before hb hall hlaid, hflow⟩
  | @closed _ _ line _ hslash hread => exact ⟨line, hline, .nil (.refl line) (by simp), .closed hslash hread⟩
  | @block _ line _ _ _ _ hopens _ ih =>
    have hn := hopens.takesLines hline.on
    obtain ⟨last, hlast, hlaid, hflow⟩ := ih (hn.behind.startsLine (hopens.on_start hline.on))
    obtain ⟨b, gap, hb, hspan, hgap, hblank⟩ := hn.ends
    exact ⟨last, hlast, laid_cons_line hb hspan hgap hblank hlaid, hflow⟩
  | @selfClosing _ line next _ _ _ hopens _ _ ih =>
    obtain ⟨-, hread, hblank⟩ := hopens.tag
    have hnext := Tag.reaches_read hread
    obtain ⟨last, hlast, hlaid, hflow⟩ := ih (startsLine_nextLine ((hopens.on_start hline.on).reaches hnext))
    obtain ⟨gap, hgap, hall⟩ := path_nextLine_of_blank hblank
    have hspan := congrArg some (Tag.read_ok hread).2.1
    exact ⟨last, hlast, laid_cons_line hnext hspan hgap hall hlaid, hflow⟩
  | @element _ line next after _ closed _ _ _ hopens _ _ _ ihInner ihLater =>
    obtain ⟨-, hread, -⟩ := hopens.tag
    have hstart := hopens.on_start hline.on
    have hnext := Tag.reaches_read hread
    obtain ⟨end', -, hinner, hclosed⟩ := ihInner (startsLine_nextLine (hstart.reaches hnext))
    have hafter := hnext.trans ((reaches_nextLine next).trans (hinner.reaches.trans hclosed.reaches_after))
    obtain ⟨last, hlast, hlaid, hflow⟩ := ihLater (startsLine_nextLine (hstart.reaches hafter))
    cases hclosed with
    | closed _ hread' =>
      obtain ⟨_, -, hread', -, hblank⟩ := readClosing_ok hread'
      obtain ⟨gap, hgap, hall⟩ := path_nextLine_of_blank hblank
      refine ⟨last, hlast, laid_cons_line hafter ?_ hgap hall hlaid, hflow⟩
      rw [(Tag.read_ok hread).2.1, (Tag.read_ok hread').2.1]
      rfl

/-- The tag that closes an element stands behind the one that opens it. -/
theorem FlowTrace.reaches_after {tag closed : Tag} {next after : Cursor} {inner : List Node}
    (h : FlowTrace math (some tag) next.nextLine inner (some (closed, after))) (hnext : next.On cs) :
    next.Reaches after := by
  obtain ⟨last, -, hlaid, hclosed⟩ := h.laid (startsLine_nextLine hnext)
  exact (reaches_nextLine next).trans (hlaid.reaches.trans hclosed.reaches_after)

/-- A node of flow content that is no element was opened by a line, and those behind it are read from
the next one on. -/
theorem FlowTrace.sibling {before later : List Node} {n : Node}
    (h : FlowTrace math container line nodes closing) (hline : line.On cs)
    (hnodes : nodes = before ++ n :: later) (helement : n.kind.element? = none) :
    ∃ line' next, line'.On cs ∧ LineOpens math container line' (.block n next) ∧
      FlowTrace math container next later closing := by
  induction h generalizing before with
  | ended => simp at hnodes
  | @skip _ line _ _ _ _ _ ih => exact ih (hline.reaches (reaches_nextLine line)) hnodes
  | closed => simp at hnodes
  | block hopens hlater ih =>
    cases before with
    | nil =>
      simp only [List.nil_append, List.cons.injEq] at hnodes
      obtain ⟨rfl, rfl⟩ := hnodes
      exact ⟨_, _, hline, hopens, hlater⟩
    | cons first before =>
      simp only [List.cons_append, List.cons.injEq] at hnodes
      exact ih ((hopens.on_start hline).reaches (hopens.takesLines hline).behind.reaches) hnodes.2
  | @selfClosing _ _ next _ _ _ hopens _ _ ih =>
    cases before with
    | nil =>
      simp only [List.nil_append, List.cons.injEq] at hnodes
      rw [← hnodes.1] at helement
      cases helement
    | cons first before =>
      simp only [List.cons_append, List.cons.injEq] at hnodes
      exact ih (hline.reaches (hopens.reaches_next.trans (reaches_nextLine next))) hnodes.2
  | @element _ _ next after _ _ _ _ _ hopens _ hinner _ _ ihLater =>
    cases before with
    | nil =>
      simp only [List.nil_append, List.cons.injEq] at hnodes
      rw [← hnodes.1] at helement
      cases helement
    | cons first before =>
      simp only [List.cons_append, List.cons.injEq] at hnodes
      have hnext := hline.reaches hopens.reaches_next
      exact ihLater (hnext.reaches ((hinner.reaches_after hnext).trans (reaches_nextLine after))) hnodes.2

/-! ## All nodes of a trace -/

theorem FlowTrace.forall_mem {P : Node → Prop}
    (hblock : ∀ {container : Option Tag} {line next : Cursor} {n : Node}, line.StartsLine cs →
      LineOpens math container line (.block n next) → ∀ m ∈ n.preorder, P m)
    (htag : ∀ {container : Option Tag} {line next : Cursor} {tag : Tag}, line.StartsLine cs →
      LineOpens math container line (.element tag next) → tag.selfClosing = true →
      P (.leaf (.blockElement tag.element) tag.span))
    (helement : ∀ {container : Option Tag} {line next after : Cursor} {tag closed : Tag}
      {inner : List Node}, line.StartsLine cs → LineOpens math container line (.element tag next) →
      tag.selfClosing = false → FlowTrace math (some tag) next.nextLine inner (some (closed, after)) →
      P (.branch (.blockElement tag.element) ⟨tag.span.start, closed.span.stop⟩ inner))
    (h : FlowTrace math container line nodes closing) (hline : line.StartsLine cs) :
    ∀ m ∈ preorderAll nodes, P m := by
  induction h with
  | ended => simp [preorderAll]
  | skip _ _ _ ih => exact ih (startsLine_nextLine hline.on)
  | closed => simp [preorderAll]
  | block hopens _ ih =>
    have hn := hopens.takesLines hline.on
    exact forall_mem_preorderAll_cons.mpr
      ⟨hblock hline hopens, ih (hn.behind.startsLine (hopens.on_start hline.on))⟩
  | selfClosing hopens hself _ ih =>
    refine forall_mem_preorderAll_cons.mpr
      ⟨?_, ih (startsLine_nextLine (hline.on.reaches hopens.reaches_next))⟩
    exact forall_mem_preorder.mpr
      ⟨htag hline hopens hself, by simp [Node.leaf, Node.children, preorderAll]⟩
  | element hopens hself hinner _ ihInner ihLater =>
    have hnext := hline.on.reaches hopens.reaches_next
    have hafter := hnext.reaches (hinner.reaches_after hnext)
    refine forall_mem_preorderAll_cons.mpr ⟨?_, ihLater (startsLine_nextLine hafter)⟩
    exact forall_mem_preorder.mpr
      ⟨helement hline hopens hself hinner, ihInner (startsLine_nextLine hnext)⟩

mutual

theorem Node.mem_preorder_trans : ∀ (n : Node) {m d : Node}, m ∈ n.preorder → d ∈ m.preorder → d ∈ n.preorder
  | .mk kind span children, m, d, hm, hd => by
    rw [Node.preorder, List.mem_cons] at hm
    rcases hm with rfl | hm
    · exact hd
    · rw [Node.preorder, List.mem_cons]
      exact .inr (mem_preorderAll_trans children hm hd)

theorem mem_preorderAll_trans : ∀ (nodes : List Node) {m d : Node}, m ∈ preorderAll nodes → d ∈ m.preorder →
    d ∈ preorderAll nodes
  | [], m, d, hm, _ => by simp [preorderAll] at hm
  | n :: nodes, m, d, hm, hd => by
    rw [preorderAll, List.mem_append] at hm ⊢
    rcases hm with hm | hm
    · exact .inl (n.mem_preorder_trans hm hd)
    · exact .inr (mem_preorderAll_trans nodes hm hd)

end

/-- Below nodes without children there are only these. -/
theorem mem_of_mem_preorderAll {nodes : List Node} (h : ∀ n ∈ nodes, n.children = []) {m : Node}
    (hm : m ∈ preorderAll nodes) : m ∈ nodes := by
  induction nodes with
  | nil => simp [preorderAll] at hm
  | cons n nodes ih =>
    obtain ⟨hn, hnodes⟩ := List.forall_mem_cons.mp h
    cases n with
    | mk kind span children =>
      simp only [Node.children] at hn
      subst hn
      simp only [preorderAll, Node.preorder, List.cons_append, List.nil_append, List.mem_cons] at hm ⊢
      exact hm.imp_right (ih hnodes)

/-- A paragraph and what is in it were read to its end, behind which reading goes on. -/
theorem readParagraph_trace {c next : Cursor} {n : Node} (hc : c.On cs)
    (h : readParagraph math container c = .ok (n, next)) : ∃ run : InlineRun,
      InlineTrace math (.paragraph container) none c c (paragraphEnd math container c) run ∧
        n = .branch .paragraph (c.spanTo run.stop.offset) run.nodes ∧ next = run.stop.nextLine := by
  unfold readParagraph at h
  obtain ⟨⟨nodes, stop⟩, hnodes, h⟩ := ok_of_bind h
  cases h
  have hr := (readsThrough math cs).paragraph_starts container _ hc
  obtain ⟨run, htrace, rfl, rfl⟩ := inlineTrace_of_inlineNodes hr hnodes
  exact ⟨run, htrace, rfl, rfl⟩

/-- Below a node that a line opened and that was read whole there are only statements and inline
nodes. -/
theorem LineOpens.below {n : Node} {next : Cursor} (h : LineOpens math container line (.block n next))
    (hline : line.On cs) :
    ∀ m ∈ preorderAll n.children, m.kind = .moduleStatement ∨ InlineNode cs m := by
  have hc := h.on_start hline
  have leaf : ∀ {kind : NodeKind} {s : Span}, ∀ m ∈ preorderAll (Node.leaf kind s).children,
      m.kind = .moduleStatement ∨ InlineNode cs m := by
    intro kind s
    simp [Node.leaf, Node.children, preorderAll]
  cases opens_of_openLine h.opens with
  | moduleBlock _ _ _ hread =>
    unfold readModule at hread
    obtain ⟨⟨⟩, -, hread⟩ := ok_of_bind hread
    cases hread
    intro m hm
    have hmem := mem_of_mem_preorderAll (fun s hs => ?_) hm
    · exact .inl (kind_of_mem_moduleStatements hmem)
    · obtain ⟨part, -, rfl⟩ := List.mem_map.mp hs
      rfl
  | fenced => exact leaf
  | @heading depth _ _ _ hread =>
    unfold readHeading at hread
    obtain ⟨⟨nodes, stop⟩, hnodes, hread⟩ := ok_of_bind hread
    cases hread
    have hr := (readsThrough math cs).heading_starts depth _ hc
    obtain ⟨run, htrace, rfl, -⟩ := inlineTrace_of_inlineNodes hr hnodes
    exact fun m hm => .inr (htrace.inlineNode hr.on m hm)
  | thematicBreak => exact leaf
  | expression hread =>
    obtain ⟨e, s, rfl⟩ := kind_readFlowExpression? hread
    exact leaf
  | paragraph _ _ _ _ hread =>
    obtain ⟨run, htrace, rfl, -⟩ := readParagraph_trace hc hread
    exact fun m hm => .inr (htrace.inlineNode hc m hm)

/-- What is read below such a node is neither a paragraph nor fenced. -/
theorem kind_below {m : Node} (h : m.kind = .moduleStatement ∨ InlineNode cs m) :
    m.kind ≠ .paragraph ∧ m.kind.isFenced = false := by
  rcases h with hstatement | hinline
  · rw [hstatement]
    exact ⟨nofun, rfl⟩
  · have hkind := hinline.inline
    revert hkind
    cases m.kind <;> simp [NodeKind.isInline, NodeKind.isFenced]

end Trace

/-! ## Documents -/

variable {cs : List Char} {options : ParseOptions} {root : Node}

/-- Before the other lines of a document there is nothing, or one front matter block. -/
theorem readFront_ok {dialects : List Dialect} {flow : Cursor} {front : List Node}
    (h : readFront dialects (ofText cs) = (front, flow)) : flow.StartsLine cs ∧
      (front = [] ∨ ∃ dialect value span, front = [.leaf (.frontmatter dialect value) span]) := by
  unfold readFront at h
  split at h
  · next hfound =>
    cases h
    refine ⟨(readFrontmatter?_ok hfound (on_ofText cs)).behind.startsLine (on_ofText cs), .inr ?_⟩
    simp only [readFrontmatter?, Option.bind_eq_bind, Option.bind_eq_some_iff, Option.pure_def,
      Option.some.injEq, Prod.mk.injEq] at hfound
    obtain ⟨dialect, -, close, -, rfl, -⟩ := hfound
    exact ⟨dialect, _, _, rfl⟩
  · cases h
    exact ⟨startsLine_ofText cs, .inl rfl⟩

/-- A document that parses is its front matter and a trace of the lines behind it. -/
theorem parse_trace (h : parse options cs = .ok root) : ∃ front flow nodes,
    readFront options.dialects (ofText cs) = (front, flow) ∧ flow.StartsLine cs ∧
      FlowTrace options.math none flow nodes none ∧
      root = .branch .root ⟨0, byteLength cs⟩ (front ++ nodes) := by
  obtain ⟨front, flow, hfront⟩ : ∃ front flow, readFront options.dialects (ofText cs) = (front, flow) :=
    ⟨_, _, rfl⟩
  have hflow := (readFront_ok hfront).1
  unfold parse at h
  rw [hfront] at h
  obtain ⟨⟨nodes, closing⟩, hread, h⟩ := ok_of_bind h
  cases h
  have htrace := flowTrace_of_readFlow hflow.on (by omega) hread
  obtain ⟨last, -, -, hend⟩ := htrace.laid hflow
  cases hend with
  | ended => exact ⟨front, flow, nodes, hfront, hflow, htrace, rfl⟩

/-- A property of all nodes of a document. -/
theorem forall_mem_parse {P : Node → Prop} (h : parse options cs = .ok root)
    (hroot : ∀ {front : List Node} {flow : Cursor} {nodes : List Node},
      (∀ m ∈ front, ∃ dialect value, m.kind = .frontmatter dialect value) → flow.StartsLine cs →
      FlowTrace options.math none flow nodes none →
      P (.branch .root ⟨0, byteLength cs⟩ (front ++ nodes)))
    (hfront : ∀ dialect value span, P (.leaf (.frontmatter dialect value) span))
    (hblock : ∀ {container : Option Tag} {line next : Cursor} {n : Node}, line.StartsLine cs →
      LineOpens options.math container line (.block n next) → P n)
    (hbelow : ∀ m, (∀ d ∈ m.preorder, d.kind = .moduleStatement ∨ InlineNode cs d) → P m)
    (htag : ∀ {container : Option Tag} {line next : Cursor} {tag : Tag}, line.StartsLine cs →
      LineOpens options.math container line (.element tag next) → tag.selfClosing = true →
      P (.leaf (.blockElement tag.element) tag.span))
    (helement : ∀ {container : Option Tag} {line next after : Cursor} {tag closed : Tag}
      {inner : List Node}, line.StartsLine cs → LineOpens options.math container line (.element tag next) →
      tag.selfClosing = false →
      FlowTrace options.math (some tag) next.nextLine inner (some (closed, after)) →
      P (.branch (.blockElement tag.element) ⟨tag.span.start, closed.span.stop⟩ inner)) :
    ∀ m ∈ root.preorder, P m := by
  obtain ⟨front, flow, nodes, hread, hflow, htrace, rfl⟩ := parse_trace h
  have hkinds := (readFront_ok hread).2
  refine forall_mem_preorder.mpr ⟨hroot ?_ hflow htrace, forall_mem_preorderAll_append.mpr ⟨?_, ?_⟩⟩
  · rcases hkinds with rfl | ⟨dialect, value, span, rfl⟩
    · simp
    · simp [Node.leaf, Node.kind]
  · rcases hkinds with rfl | ⟨dialect, value, span, rfl⟩
    · simp [preorderAll]
    · simpa [preorderAll, Node.leaf, Node.preorder] using hfront dialect value span
  · refine htrace.forall_mem (fun hline hopens => ?_) htag helement hflow
    refine forall_mem_preorder.mpr ⟨hblock hline hopens, fun m hm => hbelow m fun d hd => ?_⟩
    exact hopens.below hline.on d (mem_preorderAll_trans _ hm hd)

/-- What the children of a node are. -/
inductive Content (math : Bool) (cs : List Char) (p : Node) : Prop
  /-- Flow content, in the root behind the front matter. -/
  | flow {container : Option Tag} {front nodes : List Node} {line : Cursor}
      {closing : Option (Tag × Cursor)} :
    p.children = front ++ nodes → (∀ m ∈ front, ∃ dialect value, m.kind = .frontmatter dialect value) →
    line.StartsLine cs → FlowTrace math container line nodes closing →
    container.map Tag.element = p.kind.element? →
    (∀ tag after, closing = some (tag, after) → ∃ s, p.span = some s ∧ tag.span.stop = s.stop) →
    Content math cs p
  /-- The content of what is read whole. -/
  | whole : (∀ m ∈ p.children, m.kind = .moduleStatement ∨ InlineNode cs m) → Content math cs p

theorem Node.mem_preorder_self (n : Node) : n ∈ n.preorder := by
  cases n
  simp [Node.preorder]

theorem mem_preorderAll_of_mem {nodes : List Node} {n : Node} (h : n ∈ nodes) : n ∈ preorderAll nodes := by
  induction nodes with
  | nil => cases h
  | cons m nodes ih =>
    rw [preorderAll, List.mem_append]
    rcases List.mem_cons.mp h with rfl | h
    · exact .inl n.mem_preorder_self
    · exact .inr (ih h)

theorem Node.mem_preorder_of_child {m n : Node} (h : m ∈ n.children) : m ∈ n.preorder := by
  obtain ⟨kind, span, nodes⟩ := n
  rw [Node.preorder]
  exact List.mem_cons_of_mem _ (mem_preorderAll_of_mem h)

theorem content_of_parse (h : parse options cs = .ok root) :
    ∀ p ∈ root.preorder, Content options.math cs p := by
  refine forall_mem_parse h ?_ ?_ ?_ ?_ ?_ ?_
  · intro front flow nodes hfront hflow htrace
    exact .flow rfl hfront hflow htrace rfl (by simp)
  · intro dialect value span
    exact .whole (by simp [Node.leaf, Node.children])
  · intro container line next n hline hopens
    exact .whole fun m hm => hopens.below hline.on m (mem_preorderAll_of_mem hm)
  · intro m hm
    exact .whole fun d hd => (forall_mem_preorder.mp hm).2 d (mem_preorderAll_of_mem hd)
  · intro container line next tag _ _ _
    exact .whole (by simp [Node.leaf, Node.children])
  · intro container line next after tag closed inner hline hopens _ hinner
    have hnext := hline.on.reaches hopens.reaches_next
    refine .flow (List.nil_append inner).symm (by simp) (startsLine_nextLine hnext) hinner rfl ?_
    intro tag' after' heq
    cases heq
    exact ⟨_, rfl, rfl⟩

end Mdx

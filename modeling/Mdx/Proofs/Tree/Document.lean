/-
A document that parses is read to its end, and every node of its tree is placed
in the text (`parse_ok`): what is proved of the places of nodes in later modules
is read off from there.
-/
import Mdx.Proofs.Tree.Block

namespace Mdx

open Cursor

variable {cs : List Char} {math : Bool}

/-- What a line opens: a construct that was read, or a tag that ends its line. -/
inductive Opening.Reads (cs : List Char) (c : Cursor) : Opening → Prop
  | block {n : Node} {next : Cursor} : TakesLines cs c n next → Reads cs c (.block n next)
  | element {tag : Tag} {next : Cursor} :
    Tag.read c = .ok (tag, next) → next.isLineBlank = true → Reads cs c (.element tag next)

theorem flowTag?_ok {c next : Cursor} {tag : Tag} (h : flowTag? c = .ok (some (tag, next))) :
    Tag.read c = .ok (tag, next) ∧ next.isLineBlank = true := by
  unfold flowTag? at h
  split at h
  · obtain ⟨⟨tag', next'⟩, hread, h⟩ := ok_of_bind h
    dsimp only at h
    split at h
    · next hblank =>
      simp only [pure, Except.pure, Except.ok.injEq, Option.some.injEq, Prod.mk.injEq] at h
      obtain ⟨rfl, rfl⟩ := h
      exact ⟨hread, hblank⟩
    · cases h
  · cases h

theorem openLine_ok {container : Option Tag} {line c : Cursor} {opening : Opening}
    (h : openLine math container line c = .ok opening) (hc : c.On cs) (hne : c.rest ≠ []) :
    opening.Reads cs c := by
  unfold openLine at h
  split at h
  · obtain ⟨⟨n, next⟩, hread, h⟩ := ok_of_bind h
    cases h
    exact .block (readModule_ok hread hc hne)
  split at h
  · next fence _ =>
    cases h
    exact .block (readFenced_ok fence container hc hne)
  split at h
  · obtain ⟨⟨n, next⟩, hread, h⟩ := ok_of_bind h
    cases h
    exact .block (readHeading_ok hread hc hne)
  split at h
  · cases h
    exact .block (.of_trimmedLineEnd hne rfl (placed_leaf hc (reaches_trimmedLineEnd c) .thematicBreak))
  obtain ⟨found, htag, h⟩ := ok_of_bind h
  match found, htag, h with
  | some (tag, next), htag, h =>
    cases h
    obtain ⟨hread, hblank⟩ := flowTag?_ok htag
    exact .element hread hblank
  | none, _, h =>
    obtain ⟨found, hexpr, h⟩ := ok_of_bind h
    match found, hexpr, h with
    | some (n, next), hexpr, h =>
      cases h
      exact .block (readFlowExpression?_ok hexpr hc hne)
    | none, _, h =>
      obtain ⟨⟨n, next⟩, hread, h⟩ := ok_of_bind h
      cases h
      exact .block (readParagraph_ok hread hc hne)

/-! ## Closing tags -/

theorem Tag.closing_of_slash {lt next : Cursor} {tag : Tag} {ch : Char} {rest : List Char}
    (h : Tag.read lt = .ok (tag, next)) (hlt : lt.rest = ch :: '/' :: rest) : tag.closing = true := by
  have hdrop : (lt.drop 1).rest = '/' :: rest := by rw [rest_drop, hlt]; rfl
  have hslash : ((lt.drop 1).skipBlanks.rest.head? == some '/') = true := by
    rw [skipBlanks, rest_skipWhile, hdrop]
    rfl
  unfold Tag.read at h
  obtain ⟨⟨name, behind⟩, hname, h⟩ := ok_of_bind h
  dsimp only at h
  rw [hslash, Bool.true_or, if_pos rfl] at h
  obtain ⟨next', hnext, h⟩ := ok_of_bind h
  cases h
  rfl

theorem readClosing_ok {container : Option Tag} {c next : Cursor} {closing : Tag}
    (h : readClosing container c = .ok (closing, next)) : ∃ tag, container = some tag ∧
      Tag.read c = .ok (closing, next) ∧ tag.closedBy closing = true ∧ next.isLineBlank = true := by
  unfold readClosing at h
  obtain ⟨⟨closing', next'⟩, hread, h⟩ := ok_of_bind h
  cases container with
  | none => cases h
  | some tag =>
    dsimp only at h
    split at h
    · next hclosed =>
      split at h
      · next hend =>
        cases h
        have hpath := path_skipWhile next fun ch => isBlank ch && ch != '\n'
        refine ⟨tag, rfl, hread, hclosed, isLineBlank_of_path hpath (fun ch hch => ?_) hend⟩
        have := forall_mem_takeWhile ch hch
        rw [Bool.and_eq_true] at this
        exact this.1
      · cases h
    · cases h

/-! ## Flow content -/

/-- Flow content from `line` on that was read: to the end of the text outside all containers, or to
the tag that closes the container. -/
inductive FlowReads (cs : List Char) (container : Option Tag) (line : Cursor) :
    List Node → Option (Tag × Cursor) → Prop
  | ended {nodes : List Node} :
    container = none → Laid isBlank line nodes (ofEnd cs) → FlowReads cs container line nodes none
  | closed {nodes : List Node} {tag closing : Tag} {y after : Cursor} :
    container = some tag → Laid isBlank line nodes y → Tag.read y = .ok (closing, after) →
    closing.closing = true → tag.closedBy closing = true → after.isLineBlank = true →
    FlowReads cs container line nodes (some (closing, after))

variable {container : Option Tag} {line next : Cursor} {nodes : List Node} {closing : Option (Tag × Cursor)}

/-- Blanks before flow content do not matter. -/
theorem FlowReads.before {gap : List Char} (hgap : line.Path gap next)
    (hblank : ∀ ch ∈ gap, isBlank ch = true) (h : FlowReads cs container next nodes closing) :
    FlowReads cs container line nodes closing := by
  cases h with
  | ended hc hlaid => exact .ended hc (.before hgap hblank hlaid)
  | closed hc hlaid hread hcl hclosed hend =>
    exact .closed hc (.before hgap hblank hlaid) hread hcl hclosed hend

/-- A construct before flow content. -/
theorem FlowReads.cons {n : Node} (hn : TakesLines cs line n next)
    (h : FlowReads cs container next nodes closing) : FlowReads cs container line (n :: nodes) closing := by
  obtain ⟨b, gap, hb, hspan, hgap, hblank⟩ := hn.ends
  cases h.before hgap hblank with
  | ended hc hlaid => exact .ended hc (.cons (.refl line) (by simp) hb hspan hlaid)
  | closed hc hlaid hread hcl hclosed hend =>
    exact .closed hc (.cons (.refl line) (by simp) hb hspan hlaid) hread hcl hclosed hend

theorem startsWith_closing {c : Cursor} (h : c.startsWith "</" = true) :
    ∃ rest, c.rest = '<' :: '/' :: rest := by
  rw [startsWith, List.isPrefixOf_iff_prefix] at h
  obtain ⟨rest, hrest⟩ := h
  exact ⟨rest, hrest.symm⟩

/-- With enough fuel, flow content that is read is laid out in the text with only blanks between its
nodes, and all its nodes are placed. -/
def ReadsFlow (cs : List Char) (math : Bool) (fuel : Nat) : Prop :=
  ∀ {container : Option Tag} {line : Cursor} {nodes : List Node} {closing : Option (Tag × Cursor)},
    line.On cs → line.rest.length < fuel → readFlow math fuel container line = .ok (nodes, closing) →
    FlowReads cs container line nodes closing ∧ ∀ m ∈ preorderAll nodes, Placed cs m

section Step

variable {fuel : Nat} {start : Cursor} {n : Node}

/-- What follows a construct is read by the rest of the flow. -/
theorem ReadsFlow.proceed (hreads : ReadsFlow cs math fuel) (hstart : start.On cs)
    (hfuel : start.rest.length < fuel + 1) (hn : TakesLines cs start n next)
    (h : (do
      let (nodes, closing) ← readFlow math fuel container next
      return (n :: nodes, closing)) = Except.ok (nodes, closing)) :
    FlowReads cs container start nodes closing ∧ ∀ m ∈ preorderAll nodes, Placed cs m := by
  obtain ⟨⟨later, closing'⟩, hlater, h⟩ := ok_of_bind h
  cases h
  obtain ⟨b, gap, hb, -, hgap, -⟩ := hn.ends
  have hlt := hn.shorter
  obtain ⟨hlaid, hplaced⟩ := hreads (hstart.reaches (hb.trans hgap.reaches)) (by omega) hlater
  exact ⟨hlaid.cons hn, forall_mem_preorderAll_cons.mpr ⟨hn.placed, hplaced⟩⟩

/-- An element whose content was read is closed by the tag behind it. -/
theorem ReadsFlow.element (hreads : ReadsFlow cs math fuel) (hstart : start.On cs) (hne : start.rest ≠ [])
    (hfuel : start.rest.length < fuel + 1) {tag : Tag} (hread : Tag.read start = .ok (tag, next))
    (hend : next.isLineBlank = true)
    (h : readFlow math fuel (some tag) next.nextLine = .ok (nodes, closing)) :
    ∃ tag' after, closing = some (tag', after) ∧ TakesLines cs start
      (.branch (.blockElement tag.element) ⟨tag.span.start, tag'.span.stop⟩ nodes) after.nextLine := by
  have hnext := Tag.reaches_read hread
  obtain ⟨gap, hgap, hall⟩ := path_nextLine_of_blank hend
  have hlt := length_nextLine_lt_of_reaches hne hnext
  obtain ⟨hflow, hplaced⟩ := hreads (hstart.reaches (hnext.trans hgap.reaches)) (by omega) h
  cases hflow.before hgap hall with
  | ended hc => cases hc
  | closed hc hlaid hread' hcl hclosed hafter =>
    cases hc
    have hwhole := hnext.trans (hlaid.reaches.trans (Tag.reaches_read hread'))
    have hshape := Shape.blockElement hread hlaid hread' hcl hclosed
    have hplaced' := placed_branch hstart hwhole hshape hplaced
    refine ⟨_, _, rfl, ?_⟩
    rw [(Tag.read_ok hread).2.1, (Tag.read_ok hread').2.1]
    exact .of_isLineBlank hne hwhole rfl hafter hplaced'

end Step

theorem readFlow_ok (cs : List Char) (math : Bool) (fuel : Nat) : ReadsFlow cs math fuel := by
  induction fuel with
  | zero => intro _ _ _ _ _ hfuel; omega
  | succ fuel ih =>
    intro container line nodes closing hline hfuel h
    obtain ⟨indent, hindent, hblank⟩ := path_skipIndent line
    have hstart := hline.reaches hindent.reaches
    have hle := hindent.length_le
    simp only [readFlow, flowRound] at h
    split at h
    · next hnil =>
      cases container with
      | some tag => cases h
      | none =>
        cases h
        have hend := hline.path_ofEnd
        rw [List.isEmpty_iff.mp hnil] at hend
        exact ⟨.ended rfl (.nil hend (by simp)), by simp [preorderAll]⟩
    next hne =>
    have hne : line.rest ≠ [] := fun hnil => hne (List.isEmpty_iff.mpr hnil)
    split at h
    · next hend =>
      have hlineBlank := isLineBlank_of_path hindent hblank hend
      obtain ⟨b, hb, hall⟩ := path_nextLine_of_blank hlineBlank
      have hlt := length_nextLine_lt hne
      obtain ⟨hreads, hplaced⟩ := ih (hline.reaches hb.reaches) (by omega) h
      exact ⟨hreads.before hb hall, hplaced⟩
    next hend =>
    have hsne : line.skipIndent.rest ≠ [] := by
      intro hnil
      exact hend (isLineEnd_iff.mpr (.inl hnil))
    split at h
    · next hslash =>
      obtain ⟨⟨closing', after⟩, hclosing, h⟩ := ok_of_bind h
      cases h
      obtain ⟨tag, rfl, hread, hclosed, hafter⟩ := readClosing_ok hclosing
      obtain ⟨rest, hrest⟩ := startsWith_closing hslash
      have hcl := Tag.closing_of_slash hread hrest
      exact ⟨.closed rfl (.nil hindent hblank) hread hcl hclosed hafter, by simp [preorderAll]⟩
    obtain ⟨opening, hopen, h⟩ := ok_of_bind h
    have proceed : ∀ {n : Node} {next : Cursor}, TakesLines cs line.skipIndent n next →
        (do
          let (nodes, closing) ← readFlow math fuel container next
          return (n :: nodes, closing)) = Except.ok (nodes, closing) →
        FlowReads cs container line nodes closing ∧ ∀ m ∈ preorderAll nodes, Placed cs m := by
      intro n next hn h
      obtain ⟨hreads, hplaced⟩ := ih.proceed hstart (by omega) hn h
      exact ⟨hreads.before hindent hblank, hplaced⟩
    cases openLine_ok hopen hstart hsne with
    | block hn => exact proceed hn h
    | @element tag next hread hend =>
      dsimp only at h
      split at h
      · next hself =>
        rw [(Tag.read_ok hread).2.1] at h
        have hplaced := placed_leaf hstart (Tag.reaches_read hread) (.blockTag hread hself)
        exact proceed (.of_isLineBlank hsne (Tag.reaches_read hread) rfl hend hplaced) h
      · obtain ⟨⟨inner, found⟩, hinner, h⟩ := ok_of_bind h
        obtain ⟨tag', after, rfl, hn⟩ := ih.element hstart hsne (by omega) hread hend hinner
        exact proceed hn h

/-! ## Front matter -/

/-- A later line starts behind a line feed. -/
theorem exists_newline_of_mem_laterLines {c l : Cursor} (h : l ∈ c.laterLines) :
    ∃ y : Cursor, c.Reaches y ∧ y.Path ['\n'] l := by
  induction c using line_induction with
  | nil c hc =>
    have hnil : c.nextLine.rest = [] := by
      have := (reaches_nextLine c).length_le
      rw [hc] at this
      exact List.length_eq_zero_iff.mp (by simpa using this)
    rw [laterLines_eq, lines_of_nil hnil] at h
    cases h
  | cons c hc ih =>
    rw [laterLines_eq] at h
    by_cases hnil : c.nextLine.rest = []
    · rw [lines_of_nil hnil] at h
      cases h
    · rw [lines_of_ne_nil hnil, List.mem_cons, ← laterLines_eq] at h
      rcases h with rfl | h
      · refine ⟨c.lineEnd, (path_lineEnd c).reaches, ?_⟩
        rcases isLineEnd_iff.mp (isLineEnd_lineEnd c) with hend | ⟨rest, hend⟩
        · rw [nextLine, rest_drop, hend] at hnil
          exact absurd rfl hnil
        · exact path_cons hend
      · obtain ⟨y, hy, hp⟩ := ih h
        exact ⟨y, (reaches_nextLine c).trans hy, hp⟩

theorem readFrontmatter?_ok {dialects : List Dialect} {c next : Cursor} {n : Node}
    (h : readFrontmatter? dialects c = some (n, next)) (hc : c.On cs) : TakesLines cs c n next := by
  simp only [readFrontmatter?, Option.bind_eq_bind, Option.bind_eq_some_iff, Option.pure_def,
    Option.some.injEq, Prod.mk.injEq] at h
  obtain ⟨dialect, -, close, hclose, rfl, rfl⟩ := h
  have hmem := List.mem_of_find?_eq_some hclose
  have hend : c.nextLine.Reaches close := reaches_of_mem_lines (laterLines_eq c ▸ hmem)
  have hwhole := (reaches_nextLine c).trans (hend.trans (reaches_trimmedLineEnd close))
  obtain ⟨gap, hgap, hblank⟩ := path_trimmedLineEnd_nextLine close
  have hholds : c.Holds ⟨c.nextLine.offset, max (close.offset - 1) c.nextLine.offset⟩
      close.trimmedLineEnd := by
    refine Holds.widen (d := close) ?_ (reaches_nextLine c) (reaches_trimmedLineEnd close)
    -- The value stops before the line feed above the second fence, if a line is between the fences.
    by_cases heq : close = c.nextLine
    · subst heq
      refine ⟨_, _, .refl _, .refl _, .refl _, ?_⟩
      rw [spanTo, Nat.max_eq_right (by omega)]
    · have hlater : close ∈ c.nextLine.laterLines := by
        have hlines := laterLines_eq c ▸ hmem
        by_cases hnil : c.nextLine.rest = []
        · rw [lines_of_nil hnil] at hlines
          cases hlines
        · rw [lines_of_ne_nil hnil, List.mem_cons, ← laterLines_eq] at hlines
          exact hlines.resolve_left heq
      obtain ⟨y, hy, hp⟩ := exists_newline_of_mem_laterLines hlater
      refine ⟨_, y, .refl _, hy, hp.reaches, ?_⟩
      have hoff : close.offset = y.offset + 1 := hp.offset
      rw [spanTo, hoff, Nat.add_sub_cancel, Nat.max_eq_left hy.le]
  have hreach := (reaches_nextLine c).trans hend
  refine ⟨⟨_, gap, hwhole, rfl, hgap, hblank⟩, placed_leaf hc hwhole (.frontmatter hholds), ?_, close,
    hreach, rfl⟩
  have hne : c.rest ≠ [] := by
    intro hnil
    have hle := hreach.length_le
    have hpos := List.length_pos_iff.mpr (rest_ne_nil_of_mem_lines (laterLines_eq c ▸ hmem))
    rw [hnil, List.length_nil] at hle
    omega
  exact length_nextLine_lt_of_reaches hne hreach

/-! ## Documents -/

/-- The root covers the text with only blanks between its children, and every node is placed. -/
structure Rooted (cs : List Char) (root : Node) : Prop where
  kind : root.kind = .root
  span : root.span = some ⟨0, byteLength cs⟩
  laid : Laid isBlank (ofText cs) root.children (ofEnd cs)
  placed : ∀ m ∈ root.preorder, Placed cs m

/-- The root over some constructs and the flow behind them. -/
theorem rooted_of_readFlow {front : List Node} {flow : Cursor} {root : Node} (hflow : flow.On cs)
    (hfront : ∀ nodes, FlowReads cs none flow nodes none →
      FlowReads cs none (ofText cs) (front ++ nodes) none)
    (hplacedFront : ∀ m ∈ preorderAll front, Placed cs m)
    (h : (do
      let (nodes, _) ← readFlow math (flow.rest.length + 1) none flow
      return Node.branch .root ⟨0, byteLength cs⟩ (front ++ nodes)) = .ok root) : Rooted cs root := by
  obtain ⟨⟨nodes, closing⟩, hread, h⟩ := ok_of_bind h
  cases h
  obtain ⟨hreads, hplaced⟩ := readFlow_ok cs math _ hflow (by omega) hread
  cases hreads with
  | closed hc => cases hc
  | ended hc hlaid =>
    cases hfront nodes (.ended rfl hlaid) with
    | ended _ hlaid' =>
      refine ⟨rfl, rfl, hlaid', ?_⟩
      exact placed_branch (on_ofText cs) (path_ofEnd cs).reaches (.root hlaid')
        (forall_mem_preorderAll_append.mpr ⟨hplacedFront, hplaced⟩)

/-- The tree of a document covers it. -/
theorem parse_ok {options : ParseOptions} {root : Node} (h : parse options cs = .ok root) :
    Rooted cs root := by
  unfold parse readFront at h
  cases hfront : readFrontmatter? options.dialects (ofText cs) with
  | none =>
    rw [hfront] at h
    refine rooted_of_readFlow (on_ofText cs) (fun nodes hnodes => ?_) (by simp [preorderAll]) h
    exact hnodes
  | some found =>
    obtain ⟨n, next⟩ := found
    rw [hfront] at h
    have hn := readFrontmatter?_ok hfront (on_ofText cs)
    obtain ⟨b, gap, hb, -, hgap, -⟩ := hn.ends
    -- The front matter is one more construct before the flow.
    refine rooted_of_readFlow (hb.trans hgap.reaches) (fun nodes hnodes => hnodes.cons hn) ?_ h
    exact forall_mem_preorderAll_cons.mpr ⟨hn.placed, by simp [preorderAll]⟩

end Mdx

/-
Where fenced content ends. The lines below a fence are searched for the one that
closes it, but no further than to a line that closes the container: each line is
tested for the container first. So a fence runs to the first line that closes it
exactly if no line before that one closes the container, and one that does not is
cut where its container ends (`parse_fences`).
-/
import Mdx.Proofs.Trace.Document

namespace Mdx

open Cursor

/-- The lines below a fence that are searched for its end. -/
def fenceLines (container : Option Tag) (c : Cursor) : List Cursor :=
  c.laterLines.takeWhile (!closesContainer container ·)

/-- The end of the last of the lines that is not blank, or `stop` if all are. -/
def lastText (stop : Nat) : List Cursor → Nat
  | [] => stop
  | line :: lines => lastText (if line.isLineBlank then stop else line.lineEnd.offset) lines

theorem lastText_le {bound : Nat} {lines : List Cursor}
    (hlines : ∀ line ∈ lines, line.lineEnd.offset ≤ bound) :
    ∀ {stop : Nat}, stop ≤ bound → lastText stop lines ≤ bound := by
  induction lines with
  | nil => exact fun hstop => hstop
  | cons line lines ih =>
    intro stop hstop
    obtain ⟨hline, hlines⟩ := List.forall_mem_cons.mp hlines
    refine ih hlines ?_
    split
    · exact hstop
    · exact hline

/-! ## The search for the end -/

/-- Of the elements before the first one of `p`, the first of `q` is the first of all, unless one of
`p` stands before it. -/
theorem find?_takeWhile {α : Type} {p q : α → Bool} {xs : List α} {y : α}
    (hapart : ∀ x, q x = true → p x = false) (h : xs.find? q = some y) :
    (xs.takeWhile (!p ·)).find? q = if (xs.takeWhile (!q ·)).all (!p ·) then some y else none := by
  induction xs with
  | nil => cases h
  | cons x xs ih =>
    by_cases hq : q x = true
    · rw [List.find?_cons_of_pos hq] at h
      cases h
      simp [hq, hapart y hq]
    · have hq : q x = false := by simpa using hq
      rw [List.find?_cons_of_neg (by simp [hq])] at h
      cases hp : p x with
      | true => simp [hp, hq]
      | false => simpa [hp, hq] using ih h

/-- The search in closed form: `e` is the end of the text. -/
theorem fencedEnd_eq (fence : Fence) (container : Option Tag) (next : Cursor) :
    ∃ e : Cursor, ∀ stop, fencedEnd fence container stop next next.lines =
      match (next.lines.takeWhile (!closesContainer container ·)).find? fence.closedBy with
      | some close => (close.trimmedLineEnd.offset, close.nextLine)
      | none => (lastText stop (next.lines.takeWhile (!closesContainer container ·)),
        (next.lines.find? (closesContainer container)).getD e) := by
  induction next using line_induction with
  | nil next hnil =>
    rw [lines_of_nil hnil]
    exact ⟨next, fun stop => rfl⟩
  | cons next hne ih =>
    obtain ⟨e, ih⟩ := ih
    refine ⟨e, fun stop => ?_⟩
    rw [lines_of_ne_nil hne]
    by_cases hcontainer : closesContainer container next = true
    · simp [fencedEnd, hcontainer, lastText]
    have hcontainer : closesContainer container next = false := by simpa using hcontainer
    by_cases hfence : fence.closedBy next = true
    · simp [fencedEnd, hcontainer, hfence]
    · have hfence : fence.closedBy next = false := by simpa using hfence
      simp only [fencedEnd, hcontainer, hfence, Bool.false_eq_true, if_false]
      rw [ih]
      simp [hcontainer, hfence, lastText]

/-- Where the fenced content at `c` stops, and the line behind it. -/
inductive FenceStops (fence : Fence) (container : Option Tag) (c : Cursor) :
    (stop : Nat) → (next : Cursor) → Prop
  | closed {close : Cursor} :
    (fenceLines container c).find? fence.closedBy = some close →
    FenceStops fence container c close.trimmedLineEnd.offset close.nextLine
  /-- No line closes the fence before one closes the container, which is the next to be read. -/
  | unclosed {next : Cursor} :
    (fenceLines container c).find? fence.closedBy = none →
    (∀ line, c.laterLines.find? (closesContainer container) = some line → next = line) →
    FenceStops fence container c (lastText c.trimmedLineEnd.offset (fenceLines container c)) next

theorem fenceStops_of_readFenced {fence : Fence} {container : Option Tag} {c next : Cursor} {n : Node}
    (h : readFenced fence container c = (n, next)) :
    ∃ stop, n.span = some (c.spanTo stop) ∧ FenceStops fence container c stop next := by
  obtain ⟨e, he⟩ := fencedEnd_eq fence container c.nextLine
  rw [← laterLines_eq, ← fenceLines] at he
  simp only [readFenced, he] at h
  cases hfind : (fenceLines container c).find? fence.closedBy with
  | some close =>
    rw [hfind] at h
    cases h
    exact ⟨_, rfl, .closed hfind⟩
  | none =>
    rw [hfind] at h
    cases h
    refine ⟨_, rfl, .unclosed hfind fun line hline => ?_⟩
    rw [hline]
    rfl

/-! ## Lines that close a fence -/

/-- A fence is made of one of three markers. -/
theorem fenceAt?_ok {math : Bool} {c : Cursor} {fence : Fence} (h : fenceAt? math c = some fence) :
    0 < fence.length ∧ (fence.marker = '\x60' ∨ fence.marker = '~' ∨ fence.marker = '$') := by
  simp only [fenceAt?] at h
  split at h
  · split at h
    · cases h
    · cases h
      exact ⟨by dsimp only; omega, .inl rfl⟩
  · split at h
    · cases h
      exact ⟨by dsimp only; omega, .inr (.inl rfl)⟩
    · split at h
      · next hdollars =>
        simp only [Bool.and_eq_true, decide_eq_true_eq] at hdollars
        cases h
        exact ⟨by dsimp only; omega, .inr (.inr rfl)⟩
      · cases h

theorem Fence.head_of_closedBy {fence : Fence} {line : Cursor} (hpos : 0 < fence.length)
    (h : fence.closedBy line = true) : ∃ rest, line.skipIndent.line = fence.marker :: rest := by
  simp only [Fence.closedBy, Bool.and_eq_true, decide_eq_true_eq, List.all_eq_true, beq_iff_eq] at h
  obtain ⟨tail, htail, -⟩ := trimRight_append line.skipIndent.line
  have hne := List.length_pos_iff.mp (Nat.lt_of_lt_of_le hpos h.1)
  obtain ⟨ch, text, htext⟩ := List.exists_cons_of_ne_nil hne
  have hch : ch = fence.marker := h.2 ch (by simp [htext])
  refine ⟨text ++ tail, ?_⟩
  rw [htail, htext, hch]
  rfl

theorem Fence.closesContainer_of_closedBy {fence : Fence} {line : Cursor} {container : Option Tag}
    (hpos : 0 < fence.length) (hmarker : fence.marker ≠ '<') (h : fence.closedBy line = true) :
    closesContainer container line = false := by
  obtain ⟨rest, hrest⟩ := Fence.head_of_closedBy hpos h
  cases container with
  | none => rfl
  | some tag =>
    cases hslash : line.skipIndent.startsWith "</" with
    | false => simp [closesContainer, hslash]
    | true =>
      obtain ⟨later, hlater⟩ := startsWith_closing hslash
      rw [Cursor.line, hlater] at hrest
      simp at hrest
      exact absurd hrest.1.symm hmarker

/-- A line that closes a fence does not end where it starts. -/
theorem Fence.lt_trimmedLineEnd {fence : Fence} {line : Cursor} (hpos : 0 < fence.length)
    (hmarker : isBlank fence.marker = false) (h : fence.closedBy line = true) :
    line.offset < line.trimmedLineEnd.offset := by
  obtain ⟨rest, hrest⟩ := Fence.head_of_closedBy hpos h
  by_cases heq : line.offset = line.trimmedLineEnd.offset
  · have hsame := Reaches.eq_of_offset_eq (.refl line) (reaches_trimmedLineEnd line) heq
    have hblank := isLineBlank_trimmedLineEnd line
    rw [← hsame, isLineBlank, line_eq_indent, hrest, List.all_eq_true] at hblank
    rw [hblank fence.marker (by simp)] at hmarker
    cases hmarker
  · have := (reaches_trimmedLineEnd line).le
    omega

variable {math : Bool} {cs : List Char} {container : Option Tag} {fence : Fence} {c next : Cursor}
  {stop : Nat}

/-- Content that is not closed in its container stops before every later line that closes the fence. -/
theorem lastText_fenceLines_le {close : Cursor} (hclose : close ∈ c.laterLines)
    (hnot : close ∉ fenceLines container c) :
    lastText c.trimmedLineEnd.offset (fenceLines container c) ≤ close.offset := by
  have hsplit := List.takeWhile_append_dropWhile (p := (!closesContainer container ·)) (l := c.laterLines)
  have hpair := lines_pairwise_nextLine c.nextLine
  rw [← laterLines_eq, ← hsplit] at hpair
  have hbehind : close ∈ c.laterLines.dropWhile (!closesContainer container ·) := by
    rw [← hsplit, List.mem_append] at hclose
    exact hclose.resolve_left hnot
  refine lastText_le (fun l hl => ?_) ?_
  · have hreach := (List.pairwise_append.mp hpair).2.2 l hl close hbehind
    exact Nat.le_trans (reaches_drop l.lineEnd 1).le hreach.le
  · obtain ⟨gap, hgap, -⟩ := path_trimmedLineEnd_nextLine c
    exact (hgap.reaches.trans (reaches_of_mem_lines (laterLines_eq c ▸ hclose))).le

/-- A fence runs to the first line that closes it if and only if no line before that one closes the
container. -/
theorem FenceStops.closes_iff (h : FenceStops fence container c stop next)
    (hfence : fenceAt? math c = some fence) {close : Cursor}
    (hclose : c.laterLines.find? fence.closedBy = some close) :
    stop = close.trimmedLineEnd.offset ↔
      ∀ line ∈ c.laterLines.takeWhile (!fence.closedBy ·), closesContainer container line = false := by
  obtain ⟨hpos, hmarker⟩ := fenceAt?_ok hfence
  have hangle : fence.marker ≠ '<' := by rcases hmarker with h | h | h <;> rw [h] <;> decide
  have hblank : isBlank fence.marker = false := by rcases hmarker with h | h | h <;> rw [h] <;> decide
  have hfind := find?_takeWhile (p := closesContainer container)
    (fun line hline => Fence.closesContainer_of_closedBy hpos hangle hline) hclose
  rw [← fenceLines] at hfind
  have hall : ((c.laterLines.takeWhile (!fence.closedBy ·)).all (!closesContainer container ·)) = true ↔
      ∀ line ∈ c.laterLines.takeWhile (!fence.closedBy ·), closesContainer container line = false := by
    simp [List.all_eq_true]
  rw [← hall]
  cases h with
  | @closed close' hclosed =>
    rw [hclosed] at hfind
    split at hfind
    · next hnone =>
      cases hfind
      simp [hnone]
    · cases hfind
  | unclosed hunclosed =>
    rw [hunclosed] at hfind
    split at hfind
    · cases hfind
    · next hsome =>
      have hcloses := List.find?_some hclose
      have hnot : close ∉ fenceLines container c := fun hmem =>
        List.find?_eq_none.mp hunclosed close hmem hcloses
      have hle := lastText_fenceLines_le (List.mem_of_find?_eq_some hclose) hnot
      have hlt := Fence.lt_trimmedLineEnd hpos hblank hcloses
      refine iff_of_false ?_ hsome
      omega

/-! ## Fences in a document -/

/-- A line that closes the container ends its content. -/
theorem FlowTrace.closing_of_closesContainer {line : Cursor} {nodes : List Node}
    {closing : Option (Tag × Cursor)} (h : FlowTrace math container line nodes closing)
    (hcloses : closesContainer container line = true) :
    ∃ tag after, closing = some (tag, after) ∧ Tag.read line.skipIndent = .ok (tag, after) := by
  have hslash : line.skipIndent.startsWith "</" = true := by
    cases container with
    | none => cases hcloses
    | some tag =>
      simp only [closesContainer, Bool.and_eq_true] at hcloses
      exact hcloses.1
  have hopens : ∀ {opening : Opening}, ¬ LineOpens math container line opening := by
    intro opening hline
    rw [hline.notClosing] at hslash
    cases hslash
  cases h with
  | ended => cases hcloses
  | skip _ hend =>
    obtain ⟨rest, hrest⟩ := startsWith_closing hslash
    simp [isLineEnd, Cursor.line, hrest] at hend
  | closed _ hread =>
    obtain ⟨_, -, hread, -⟩ := readClosing_ok hread
    exact ⟨_, _, rfl, hread⟩
  | block hline => exact absurd hline hopens
  | selfClosing hline => exact absurd hline hopens
  | element hline => exact absurd hline hopens

/-- Fenced content is opened by a fence, and a line that cuts it short ends the content it is part of. -/
theorem FlowTrace.fenced {line : Cursor} {nodes : List Node} {closing : Option (Tag × Cursor)}
    (h : FlowTrace math container line nodes closing) (hline : line.On cs) {n : Node} (hn : n ∈ nodes)
    (hkind : n.kind.isFenced = true) :
    ∃ fence c stop next, c.On cs ∧ fenceAt? math c = some fence ∧ n.span = some (c.spanTo stop) ∧
      FenceStops fence container c stop next ∧ (closesContainer container next = true →
        ∃ tag after, closing = some (tag, after) ∧ Tag.read next.skipIndent = .ok (tag, after)) := by
  obtain ⟨before, later, hnodes⟩ := List.append_of_mem hn
  obtain ⟨line', next, hline', hopens, hlater⟩ := h.sibling hline hnodes (NodeKind.element?_of_isFenced hkind)
  obtain ⟨fence, hfence, hread⟩ := hopens.fenced hkind
  obtain ⟨stop, hspan, hstops⟩ := fenceStops_of_readFenced hread
  exact ⟨fence, _, stop, next, hopens.on_start hline', hfence, hspan, hstops,
    hlater.closing_of_closesContainer⟩

/-- Where the fenced content `n` in `p` stops, which starts with a fence at `c`. -/
structure FencedIn (math : Bool) (cs : List Char) (p n : Node) (fence : Fence) (container : Option Tag)
    (c : Cursor) (stop : Nat) : Prop where
  on : c.On cs
  opens : fenceAt? math c = some fence
  inside : container.map Tag.element = p.kind.element?
  span : n.span = some (c.spanTo stop)
  closed : ∀ close, c.laterLines.find? fence.closedBy = some close →
    (stop = close.trimmedLineEnd.offset ↔
      ∀ line ∈ c.laterLines.takeWhile (!fence.closedBy ·), closesContainer container line = false)
  unclosed : (fenceLines container c).find? fence.closedBy = none →
    stop = lastText c.trimmedLineEnd.offset (fenceLines container c) ∧
      ∀ line, c.laterLines.find? (closesContainer container) = some line →
        ∃ s tag after, p.span = some s ∧ Tag.read line.skipIndent = .ok (tag, after) ∧
          tag.span.stop = s.stop

/-- The fences among the children of a node that holds flow content. -/
theorem FlowTrace.fencedIn {line : Cursor} {nodes : List Node} {closing : Option (Tag × Cursor)}
    (h : FlowTrace math container line nodes closing) (hline : line.On cs) {p n : Node}
    (hcontainer : container.map Tag.element = p.kind.element?)
    (hclosing : ∀ tag after, closing = some (tag, after) → ∃ s, p.span = some s ∧ tag.span.stop = s.stop)
    (hn : n ∈ nodes) (hkind : n.kind.isFenced = true) :
    ∃ fence c stop, FencedIn math cs p n fence container c stop := by
  obtain ⟨fence, c, stop, next, hc, hfence, hspan, hstops, hcut⟩ := h.fenced hline hn hkind
  refine ⟨fence, c, stop, hc, hfence, hcontainer, hspan,
    fun close hclose => hstops.closes_iff hfence hclose, fun hnone => ?_⟩
  cases hstops with
  | closed hsome =>
    rw [hsome] at hnone
    cases hnone
  | unclosed _ hnext =>
    refine ⟨rfl, fun line hfind => ?_⟩
    have heq := hnext line hfind
    subst heq
    obtain ⟨tag, after, htag, hread⟩ := hcut (List.find?_some hfind)
    obtain ⟨s, hs, hstop⟩ := hclosing tag after htag
    exact ⟨s, tag, after, hs, hread, hstop⟩

/-- **Where fences end.** In the tree of a document, fenced content runs to the first line that closes
its fence exactly if no line before that one closes the element around it; if no line up to there
closes the fence, it stops with the last line that is not blank, and the element ends behind it. -/
theorem parse_fences {options : ParseOptions} {root : Node} (h : parse options cs = .ok root) :
    ∀ p ∈ root.preorder, ∀ n ∈ p.children, n.kind.isFenced = true →
      ∃ container fence c stop, FencedIn options.math cs p n fence container c stop := by
  intro p hp n hn hkind
  cases content_of_parse h p hp with
  | flow hchildren hfront hline htrace hcontainer hclosing =>
    rw [hchildren, List.mem_append] at hn
    rcases hn with hn | hn
    · obtain ⟨dialect, value, hdialect⟩ := hfront n hn
      rw [hdialect] at hkind
      cases hkind
    · exact ⟨_, htrace.fencedIn hline.on hcontainer hclosing hn hkind⟩
  | whole hwhole =>
    rw [(kind_below (hwhole n hn)).2] at hkind
    cases hkind

/-- In one element, a fence that is closed and, behind it, one that ends with the element. -/
theorem parse_fences_cut : ∃ root p n m,
    parse .standard "<a>\n~~~\n<b>\n~~~\n~~~\nx\n</a>".toList = .ok root ∧ p ∈ root.preorder ∧
      p.children = [n, m] ∧ n.kind.isFenced = true ∧ m.kind.isFenced = true ∧
      (∃ container fence c,
        FencedIn false "<a>\n~~~\n<b>\n~~~\n~~~\nx\n</a>".toList p n fence container c 15) ∧
      ∃ container fence c,
        FencedIn false "<a>\n~~~\n<b>\n~~~\n~~~\nx\n</a>".toList p m fence container c 21 := by
  let n : Node := .leaf (.code none) ⟨4, 15⟩
  let m : Node := .leaf (.code none) ⟨16, 21⟩
  let p : Node := .branch (.blockElement ⟨some "a", [], false⟩) ⟨0, 26⟩ [n, m]
  have h : parse .standard "<a>\n~~~\n<b>\n~~~\n~~~\nx\n</a>".toList = .ok (.branch .root ⟨0, 26⟩ [p]) :=
    ok_of_toOption (by decide +kernel)
  have hp : p ∈ (Node.branch .root ⟨0, 26⟩ [p]).preorder := by decide
  obtain ⟨container, fence, c, stop, hn⟩ := parse_fences h p hp n (by decide) rfl
  obtain ⟨container', fence', c', stop', hm⟩ := parse_fences h p hp m (by decide) rfl
  have hstop : stop = 15 := (Span.mk.inj (Option.some.inj hn.span)).2.symm
  have hstop' : stop' = 21 := (Span.mk.inj (Option.some.inj hm.span)).2.symm
  subst hstop hstop'
  exact ⟨_, p, n, m, h, hp, rfl, rfl, rfl, ⟨container, fence, c, hn⟩, container', fence', c', hm⟩

/-- A closing tag between two fences cuts what they enclose, if it has the name of the element around
them. -/
theorem fences_not_opaque : ¬ ∀ (cs : List Char) (options : ParseOptions) (root : Node),
    parse options cs = .ok root → ∀ p ∈ root.preorder, ∀ n ∈ p.children, n.kind.isFenced = true →
      ∀ (s : Span) (fence : Fence) (close : Cursor), n.span = some s →
        fenceAt? options.math (atOffset cs s.start) = some fence →
        (atOffset cs s.start).laterLines.find? fence.closedBy = some close →
        s.stop = close.trimmedLineEnd.offset := by
  intro hopaque
  let n : Node := .leaf (.code none) ⟨6, 9⟩
  let p : Node := .branch (.blockElement ⟨some "div", [], false⟩) ⟨0, 16⟩ [n]
  let root : Node := .branch .root ⟨0, 28⟩ [p, .leaf (.code none) ⟨17, 27⟩]
  have h : parse .standard "<div>\n~~~\n</div>\n~~~\n</div>\n".toList = .ok root :=
    ok_of_toOption (by decide +kernel)
  have hopens : fenceAt? false (atOffset "<div>\n~~~\n</div>\n~~~\n</div>\n".toList 6) = some ⟨'~', 3⟩ := by
    decide
  have hclose : (atOffset "<div>\n~~~\n</div>\n~~~\n</div>\n".toList 6).laterLines.find?
      (Fence.closedBy ⟨'~', 3⟩) = some ⟨17, "~~~\n</div>\n".toList⟩ := by decide
  have hend : trimmedLineEnd ⟨17, "~~~\n</div>\n".toList⟩ = ⟨20, "\n</div>\n".toList⟩ := by decide
  have hstop := hopaque _ _ _ h p (by decide) n (by decide) rfl ⟨6, 9⟩ _ _ rfl hopens hclose
  rw [hend] at hstop
  cases hstop

end Mdx

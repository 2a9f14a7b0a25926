/-
The folds of a document. Folds are put in the order of their lines and then of any
with the same lines the first is kept; since sorting leaves these in the order in
which they were found, it is the first that was found (`find?_folds`), and the tree
is asked before the services.

Two nodes of a tree that fold the same lines make the same fold. Neither stops
before the other starts; and only a module block folds as imports, which stands
outside of all elements and has nothing in it that folds (`kind_eq_imports`). So each
node that folds is in the answer (`folds_hold_tree`).
-/
import Mdx.Proofs.Feature.Bounds
import Mdx.Proofs.Feature.Stable
import Mdx.Proofs.Regions.Border

namespace Mdx

open Cursor

/-! ## Module blocks -/

section Blocks

variable {math : Bool} {container : Option Tag} {cs : List Char} {line next : Cursor} {root m n : Node}
  {nodes : List Node} {closing : Option (Tag × Cursor)}

/-- A module block is opened outside of all elements. -/
theorem LineOpens.outermost (h : LineOpens math container line (.block n next)) (hkind : n.kind = .moduleBlock) :
    container = none := by
  cases opens_of_openLine h.opens with
  | moduleBlock hnone => exact hnone
  | @fenced fence _ =>
    have hfenced := kind_readFenced fence container line.skipIndent
    rw [hkind] at hfenced
    cases hfenced
  | heading _ hread =>
    rw [kind_readHeading hread] at hkind
    cases hkind
  | thematicBreak => cases hkind
  | expression hread =>
    obtain ⟨e, s, rfl⟩ := kind_readFlowExpression? hread
    cases hkind
  | paragraph _ _ _ _ hread =>
    rw [kind_readParagraph hread] at hkind
    cases hkind

/-- Flow content has module blocks only outside of all elements, and not below other nodes. -/
theorem FlowTrace.moduleBlock (h : FlowTrace math container line nodes closing) (hline : line.StartsLine cs) :
    ∀ m ∈ preorderAll nodes, m.kind = .moduleBlock → container = none ∧ m ∈ nodes := by
  induction h with
  | ended => simp [preorderAll]
  | skip _ _ _ ih => exact ih (startsLine_nextLine hline.on)
  | closed => simp [preorderAll]
  | @block _ line next n _ _ hopens _ ih =>
    have hn := hopens.takesLines hline.on
    refine forall_mem_preorderAll_cons.mpr ⟨forall_mem_preorder.mpr ⟨fun hkind =>
      ⟨hopens.outermost hkind, List.mem_cons_self⟩, fun m hm hkind => ?_⟩, fun m hm hkind => ?_⟩
    · rcases hopens.below hline.on m hm with hstatement | hinline
      · cases hstatement.symm.trans hkind
      · cases hkind ▸ hinline.inline
    · obtain ⟨hnone, hmem⟩ := ih (hn.behind.startsLine (hopens.on_start hline.on)) m hm hkind
      exact ⟨hnone, List.mem_cons_of_mem _ hmem⟩
  | selfClosing hopens _ _ ih =>
    refine forall_mem_preorderAll_cons.mpr ⟨forall_mem_leaf fun hkind => ?_, fun m hm hkind => ?_⟩
    · cases hkind
    · obtain ⟨hnone, hmem⟩ := ih (startsLine_nextLine (hline.on.reaches hopens.reaches_next)) m hm hkind
      exact ⟨hnone, List.mem_cons_of_mem _ hmem⟩
  | element hopens _ hinner _ ihInner ihLater =>
    have hnext := hline.on.reaches hopens.reaches_next
    have hafter := hnext.reaches (hinner.reaches_after hnext)
    refine forall_mem_preorderAll_cons.mpr ⟨forall_mem_preorder.mpr ⟨fun hkind => ?_, fun m hm hkind => ?_⟩,
      fun m hm hkind => ?_⟩
    · cases hkind
    · cases (ihInner (startsLine_nextLine hnext) m hm hkind).1
    · obtain ⟨hnone, hmem⟩ := ihLater (startsLine_nextLine hafter) m hm hkind
      exact ⟨hnone, List.mem_cons_of_mem _ hmem⟩

/-- Below a module block there are only statements. -/
theorem kind_below_moduleBlock (h : ∀ m ∈ n.preorder, Placed cs m) (hkind : n.kind = .moduleBlock) :
    ∀ m ∈ preorderAll n.children, m.kind = .moduleStatement := by
  intro m hm
  obtain ⟨c, hc, hmc⟩ := exists_child hm
  obtain ⟨a, b, -, -, -, hshape⟩ := h n n.mem_preorder_self
  obtain ⟨a', b', -, -, -, hshape'⟩ := h c (Node.mem_preorder_of_child hc)
  rw [hkind] at hshape
  obtain ⟨kind, span, nodes⟩ := c
  cases hshape with
  | moduleBlock hstatements _ =>
    obtain rfl : kind = .moduleStatement := hstatements _ hc
    cases hshape' with
    | moduleStatement =>
      rw [Node.preorder, preorderAll, List.mem_singleton] at hmc
      rw [hmc]
      rfl

/-- The module blocks of a document are children of its root. -/
theorem moduleBlock_mem_children {options : ParseOptions} (h : parse options cs = .ok root)
    (hn : n ∈ root.preorder) (hkind : n.kind = .moduleBlock) : n ∈ root.children := by
  obtain ⟨front, flow, nodes, hread, hflow, htrace, rfl⟩ := parse_trace h
  have hfront : ∀ m ∈ preorderAll front, m.kind ≠ .moduleBlock := by
    rcases (readFront_ok hread).2 with rfl | ⟨dialect, value, span, rfl⟩
    · simp [preorderAll]
    · simp [preorderAll, Node.leaf, Node.preorder, Node.kind]
  rw [Node.branch, Node.preorder, List.mem_cons] at hn
  rcases hn with rfl | hn
  · cases hkind
  · refine List.mem_append_right front (htrace.moduleBlock hflow n ?_ hkind).2
    rw [preorderAll_append, List.mem_append] at hn
    exact hn.resolve_left fun hn => hfront n hn hkind

end Blocks

namespace Feature

/-! ## Folds in order -/

/-- The first and the last line of a fold. -/
def LineFold.lines (l : LineFold) : Nat × Nat := (l.startLine, l.endLine)

/-- The first fold starts on an earlier line, or on the same and ends on an earlier one. -/
def LineFold.Before (a b : LineFold) : Prop :=
  a.startLine < b.startLine ∨ (a.startLine = b.startLine ∧ a.endLine < b.endLine)

/-- The order in which folds are answered. -/
def LineFold.le (a b : LineFold) : Bool :=
  a.startLine < b.startLine || (a.startLine == b.startLine && a.endLine ≤ b.endLine)

section Lines

variable {a b c : LineFold} {found : List LineFold}

theorem LineFold.lines_eq_iff : a.lines = b.lines ↔ a.startLine = b.startLine ∧ a.endLine = b.endLine :=
  Prod.mk.injEq .. ▸ Iff.rfl

theorem LineFold.le_iff : a.le b = true ↔ a.Before b ∨ a.lines = b.lines := by
  simp only [le, Before, lines_eq_iff, Bool.or_eq_true, Bool.and_eq_true, decide_eq_true_eq, beq_iff_eq]
  omega

theorem LineFold.le_trans (a b c : LineFold) (hab : a.le b = true) (hbc : b.le c = true) : a.le c = true := by
  simp only [le_iff, Before, lines_eq_iff] at *
  omega

theorem LineFold.le_total (a b : LineFold) : (a.le b || b.le a) = true := by
  simp only [Bool.or_eq_true, le_iff, Before, lines_eq_iff]
  omega

theorem LineFold.Before.lines_ne (h : a.Before b) : a.lines ≠ b.lines := by
  simp only [Before, ne_eq, lines_eq_iff] at *
  omega

/-- Folds in order come out strictly in order. -/
theorem before_dedupFolds (h : found.Pairwise fun a b => a.le b = true) :
    (dedupFolds found).Pairwise LineFold.Before := by
  fun_induction dedupFolds found with
  | case1 a b folds _ ih => exact ih (h.sublist ((List.sublist_cons_self b folds).cons_cons a))
  | case2 a b folds hne ih =>
    obtain ⟨ha, hlater⟩ := List.pairwise_cons.mp h
    obtain ⟨hb, -⟩ := List.pairwise_cons.mp hlater
    refine .cons (fun c hc => ?_) (ih hlater)
    have hab := LineFold.le_iff.mp (ha b List.mem_cons_self)
    have hbc : b.Before c ∨ b.lines = c.lines := by
      rcases List.mem_cons.mp (mem_of_mem_dedupFolds hc) with rfl | hc
      · exact .inr rfl
      · exact LineFold.le_iff.mp (hb c hc)
    simp only [LineFold.Before, LineFold.lines_eq_iff] at *
    omega
  | case3 folds hshort =>
    cases folds with
    | nil => exact .nil
    | cons a folds =>
      cases folds with
      | nil => exact List.pairwise_singleton _ a
      | cons b folds => exact absurd rfl (hshort a b folds)

/-- Of the folds with the same lines the first is kept. -/
theorem find?_dedupFolds (lines : Nat × Nat) (found : List LineFold) :
    (dedupFolds found).find? (·.lines == lines) = found.find? (·.lines == lines) := by
  fun_induction dedupFolds found with
  | case1 a b folds hsame ih =>
    rw [ih, List.find?_cons, List.find?_cons, List.find?_cons, LineFold.lines_eq_iff.mpr hsame]
    cases b.lines == lines <;> rfl
  | case2 a b folds _ ih =>
    rw [List.find?_cons, ih]
    rfl
  | case3 => rfl

end Lines

variable {f : VirtualFile} {r : Registry}

theorem folds_eq (f : VirtualFile) (r : Registry) :
    folds f r = dedupFolds ((treeFolds f ++ serviceFolds f r).mergeSort LineFold.le) := rfl

/-- **Folds are answered in the order of their lines, and no lines twice.** -/
theorem before_folds (f : VirtualFile) (r : Registry) : (folds f r).Pairwise LineFold.Before := by
  rw [folds_eq]
  exact before_dedupFolds (List.pairwise_mergeSort LineFold.le_trans LineFold.le_total _)

/-- **Of all folds with the same lines the first that was found is kept,** those of the tree before those of
the services. -/
theorem find?_folds (f : VirtualFile) (r : Registry) (lines : Nat × Nat) :
    (folds f r).find? (·.lines == lines) = (treeFolds f ++ serviceFolds f r).find? (·.lines == lines) := by
  rw [folds_eq, find?_dedupFolds, ← List.head?_filter, ← List.head?_filter,
    filter_mergeSort LineFold.le_trans LineFold.le_total fun a b ha hb => ?_]
  rw [beq_iff_eq] at ha hb
  exact LineFold.le_iff.mpr (.inr (ha.trans hb.symm))

/-! ## Folds of the tree -/

/-- The kinds of nodes that fold, and what they fold as. -/
inductive FoldsAs : NodeKind → FoldKind → Prop
  | moduleBlock : FoldsAs .moduleBlock .imports
  | frontmatter (dialect : Dialect) (value : Span) : FoldsAs (.frontmatter dialect value) .region
  | blockElement (element : Element) : FoldsAs (.blockElement element) .region
  | blockExpression (expression : Expression) : FoldsAs (.blockExpression expression) .region
  | code (lang : Option String) : FoldsAs (.code lang) .region
  | math : FoldsAs .math .region

theorem foldsAs_iff {kind : NodeKind} {k : FoldKind} : FoldsAs kind k ↔ foldKind? kind = some k := by
  constructor
  · rintro (_ | _ | _ | _ | _ | _) <;> rfl
  · intro h
    cases kind <;> cases h <;> constructor

section Tree

variable {cs : List Char} {s t : Span} {kind : Option FoldKind} {l : LineFold} {root m n : Node} {k : FoldKind}

/-- The lines of the first and of the last byte of a span. -/
def spanLines (cs : List Char) (s : Span) : Nat × Nat :=
  ((bytePosition cs s.start).line, (bytePosition cs (s.stop - 1)).line)

theorem lineFold?_eq_some_iff : lineFold? cs s kind = some l ↔
    s.start < s.stop ∧ (spanLines cs s).1 < (spanLines cs s).2 ∧ l.lines = spanLines cs s ∧ l.kind = kind := by
  obtain ⟨startLine, endLine, kind'⟩ := l
  simp only [lineFold?, spanLines, LineFold.lines, Span.isEmpty, Option.ite_none_right_eq_some, Option.some.injEq,
    LineFold.mk.injEq, Prod.mk.injEq, Bool.and_eq_true, Bool.not_eq_true', decide_eq_false_iff_not, Nat.not_le,
    decide_eq_true_eq]
  grind

/-- Spans on the same lines, of which there are several, do not follow each other. -/
theorem not_le_of_spanLines_eq (hlines : spanLines cs s = spanLines cs t)
    (hlt : (spanLines cs s).1 < (spanLines cs s).2) : ¬ s.stop ≤ t.start := by
  intro hle
  have hmono := line_bytePosition_mono cs (show s.stop - 1 ≤ t.start by omega)
  rw [spanLines, spanLines, Prod.mk.injEq] at hlines
  simp only [spanLines] at hlt
  omega

/-- A node that folds the lines of a module block is one. -/
theorem kind_eq_imports {options : ParseOptions} (h : parse options cs = .ok root) (hn : n ∈ root.preorder)
    (hkind : n.kind = .moduleBlock) (ht : n.span = some t) (hm : m ∈ root.preorder) (hk : FoldsAs m.kind k)
    (hs : m.span = some s) (hlines : spanLines cs s = spanLines cs t)
    (hlt : (spanLines cs s).1 < (spanLines cs s).2) : k = .imports := by
  have hroot := parse_ok h
  have hchild := moduleBlock_mem_children h hn hkind
  -- The node is below a child of the root.
  obtain ⟨r, hr, hmr⟩ : ∃ r ∈ root.children, m ∈ r.preorder := by
    obtain ⟨rootKind, span, nodes⟩ := root
    obtain rfl : rootKind = .root := hroot.kind
    rw [Node.preorder, List.mem_cons] at hm
    rcases hm with rfl | hm
    · cases hk
    · exact exists_child hm
  by_cases hsame : r = n
  · subst hsame
    have hbelow := kind_below_moduleBlock (fun m hm => hroot.placed m (root.mem_preorder_trans hn hm)) hkind
    obtain ⟨kind, span, nodes⟩ := r
    obtain rfl : kind = .moduleBlock := hkind
    rw [Node.preorder, List.mem_cons] at hmr
    rcases hmr with rfl | hmr
    · cases hk
      rfl
    · rw [hbelow m hmr] at hk
      cases hk
  · -- The child and the block follow each other, so they do not fold the same lines.
    obtain ⟨u, hu, -⟩ := hroot.laid.holds hr
    have hplaced : ∀ m ∈ r.preorder, Placed cs m := fun m hm =>
      hroot.placed m (root.mem_preorder_trans (Node.mem_preorder_of_child hr) hm)
    have hw := r.within_of_mem_preorder hplaced u hu m hmr s hs
    have hordered : root.children.Pairwise fun x y => x.Precedes y ∨ y.Precedes x :=
      hroot.laid.pairwise.imp Or.inl
    have : Std.Symm fun x y : Node => x.Precedes y ∨ y.Precedes x := ⟨fun _ _ hxy => hxy.symm⟩
    rcases hordered.forall hr hchild hsame with hle | hle
    · exact absurd (Nat.le_trans hw.le_stop (hle u t hu ht)) (not_le_of_spanLines_eq hlines hlt)
    · exact absurd (Nat.le_trans (hle t u ht hu) hw.start_le) (not_le_of_spanLines_eq hlines.symm (hlines ▸ hlt))

/-- What folds, folds as imports or as a region, and only module blocks do the former. -/
theorem FoldsAs.imports_or_region {kind : NodeKind} (h : FoldsAs kind k) :
    (kind = .moduleBlock ∧ k = .imports) ∨ k = .region := by
  cases h with
  | moduleBlock => exact .inl ⟨rfl, rfl⟩
  | _ => exact .inr rfl

/-- Nodes that fold the same lines fold them as the same. -/
theorem foldKind_eq_of_lines {options : ParseOptions} (h : parse options cs = .ok root) (hm : m ∈ root.preorder)
    (hn : n ∈ root.preorder) {k' : FoldKind} (hk : FoldsAs m.kind k) (hk' : FoldsAs n.kind k')
    (hs : m.span = some s) (ht : n.span = some t) (hlines : spanLines cs s = spanLines cs t)
    (hlt : (spanLines cs s).1 < (spanLines cs s).2) : k = k' := by
  rcases hk'.imports_or_region with ⟨hkind, rfl⟩ | rfl
  · exact kind_eq_imports h hn hkind ht hm hk hs hlines hlt
  · rcases hk.imports_or_region with ⟨hkind, rfl⟩ | rfl
    · exact (kind_eq_imports h hm hkind hs hn hk' ht hlines.symm (hlines ▸ hlt)).symm
    · rfl

theorem mem_treeFolds_iff (hroot : f.compiled.tree = .ok root) : l ∈ treeFolds f ↔
    ∃ n ∈ root.preorder, ∃ k s, FoldsAs n.kind k ∧ n.span = some s ∧ lineFold? f.source s (some k) = some l := by
  simp only [treeFolds, Compilation.tree?, hroot, Except.toOption, List.mem_filterMap, Option.bind_eq_bind,
    Option.bind_eq_some_iff, foldsAs_iff]
  grind

theorem exists_tree_of_mem_treeFolds (h : l ∈ treeFolds f) : ∃ root, f.compiled.tree = .ok root := by
  cases htree : f.compiled.tree with
  | ok root => exact ⟨root, rfl⟩
  | error e => simp [treeFolds, Compilation.tree?, htree, Except.toOption] at h

theorem mem_treeFolds_or_serviceFolds (h : l ∈ folds f r) : l ∈ treeFolds f ∨ l ∈ serviceFolds f r := by
  rw [folds_eq] at h
  exact List.mem_append.mp (List.mem_mergeSort.mp (mem_of_mem_dedupFolds h))

/-- The fold of a node is the only fold of the tree with its lines. -/
theorem eq_of_mem_treeFolds (hf : f.UpToDate) {l' : LineFold} (h : l ∈ treeFolds f) (h' : l' ∈ treeFolds f)
    (hlines : l.lines = l'.lines) : l = l' := by
  obtain ⟨root, hroot⟩ := exists_tree_of_mem_treeFolds h
  obtain ⟨m, hm, k, s, hk, hs, hfold⟩ := (mem_treeFolds_iff hroot).mp h
  obtain ⟨n, hn, k', t, hk', ht, hfold'⟩ := (mem_treeFolds_iff hroot).mp h'
  obtain ⟨-, hlt, hl, hkind⟩ := lineFold?_eq_some_iff.mp hfold
  obtain ⟨-, -, hl', hkind'⟩ := lineFold?_eq_some_iff.mp hfold'
  have hparse := parse_of_tree (hf ▸ hroot)
  have heq := foldKind_eq_of_lines hparse hm hn hk hk' hs ht (hl.symm.trans (hlines.trans hl')) hlt
  obtain ⟨hstart, hend⟩ := LineFold.lines_eq_iff.mp hlines
  cases l
  cases l'
  exact (LineFold.mk.injEq ..).mpr ⟨hstart, hend, hkind.trans (heq ▸ hkind'.symm)⟩

/-- A fold of the tree is answered, and no other one with its lines. -/
theorem mem_folds_iff_of_tree (hf : f.UpToDate) (h : l ∈ treeFolds f) (l' : LineFold) :
    l' ∈ folds f r ∧ l'.lines = l.lines ↔ l' = l := by
  have hfirst : (treeFolds f).find? (·.lines == l.lines) = some l := by
    cases hfind : (treeFolds f).find? (·.lines == l.lines) with
    | none => exact absurd (List.find?_eq_none.mp hfind l h) (by simp)
    | some first =>
      have hlines : first.lines = l.lines := by simpa using List.find?_some hfind
      rw [eq_of_mem_treeFolds hf (List.mem_of_find?_eq_some hfind) h hlines]
  have hmem : l ∈ folds f r := by
    refine List.mem_of_find?_eq_some (p := (·.lines == l.lines)) ?_
    rw [find?_folds, List.find?_append, hfirst, Option.some_or]
  have hdistinct : (folds f r).Pairwise fun a b => a.lines ≠ b.lines :=
    (before_folds f r).imp LineFold.Before.lines_ne
  have : Std.Symm fun a b : LineFold => a.lines ≠ b.lines := ⟨fun _ _ hne => hne.symm⟩
  constructor
  · rintro ⟨hmem', hlines⟩
    exact Classical.byContradiction fun hne => hdistinct.forall hmem' hmem hne hlines
  · rintro rfl
    exact ⟨hmem, rfl⟩

end Tree

/-- **Folds are in order, and all of the tree are among them.** The folds of a document come strictly in the
order of their lines, so no lines come twice. Of the folds with the same lines that the tree and then the
services make the first is kept; and each module block, front matter, element, expression, code or math that
has its first and its last byte on different lines is kept with its kind, whatever the services say. A fold
that is answered is that of such a node or of a service. -/
theorem folds_hold_tree {f : VirtualFile} (hf : f.UpToDate) (r : Registry) :
    (folds f r).Pairwise LineFold.Before ∧
    (∀ lines, (folds f r).find? (·.lines == lines) =
      (treeFolds f ++ serviceFolds f r).find? (·.lines == lines)) ∧
    (∀ root, f.compiled.tree = .ok root → ∀ n ∈ root.preorder, ∀ k s, FoldsAs n.kind k → n.span = some s →
      s.start < s.stop → (spanLines f.source s).1 ≠ (spanLines f.source s).2 →
        ∀ l : LineFold, l ∈ folds f r ∧ l.lines = spanLines f.source s ↔
          l = ⟨(spanLines f.source s).1, (spanLines f.source s).2, some k⟩) ∧
    ∀ l ∈ folds f r, l ∈ serviceFolds f r ∨ ∃ root, f.compiled.tree = .ok root ∧ ∃ n ∈ root.preorder, ∃ k s,
      FoldsAs n.kind k ∧ n.span = some s ∧ l.lines = spanLines f.source s ∧ l.kind = some k := by
  refine ⟨before_folds f r, find?_folds f r, fun root hroot n hn k s hk hs hne hlines l => ?_, fun l hl => ?_⟩
  · have hle := line_bytePosition_mono f.source (show s.start ≤ s.stop - 1 by omega)
    have hfold : lineFold? f.source s (some k) =
        some ⟨(spanLines f.source s).1, (spanLines f.source s).2, some k⟩ :=
      lineFold?_eq_some_iff.mpr ⟨hne, Nat.lt_of_le_of_ne hle hlines, rfl, rfl⟩
    exact mem_folds_iff_of_tree hf ((mem_treeFolds_iff hroot).mpr ⟨n, hn, k, s, hk, hs, hfold⟩) l
  · rcases mem_treeFolds_or_serviceFolds hl with h | h
    · obtain ⟨root, hroot⟩ := exists_tree_of_mem_treeFolds h
      obtain ⟨n, hn, k, s, hk, hs, hfold⟩ := (mem_treeFolds_iff hroot).mp h
      obtain ⟨-, -, hlines, hkind⟩ := lineFold?_eq_some_iff.mp hfold
      exact .inr ⟨root, hroot, n, hn, k, s, hk, hs, hlines, hkind⟩
    · exact .inl h

/-- A service that folds all of its view. -/
def wholeFold : Service where
  language := .script
  folds := fun d => .ok [⟨⟨0, byteLength d.text⟩, some .region⟩]

/-- An import over two lines, which the service folds as a region and the tree as imports; and a document with
a fold of each kind of node, of which one is in another. -/
theorem folds_hold_tree_imports :
    let f := VirtualFile.create "a" "import a from\n'x'\n".toList {}
    let g := VirtualFile.create "b" (["---\na\n---\n\n", "import a from\n'x'\n\n", "<A>\n\x7bb\n\x7d\n</A>\n\n",
      "~~~\nc\n~~~\n\n", "$$\nd\n$$\n"].flatMap String.toList) { extensions := [.frontmatter .yaml, .math] }
    let r := Registry.empty.register wholeFold
    (f.UpToDate ∧ serviceFolds f r = [⟨0, 1, some .region⟩] ∧
      (∀ l : LineFold, l ∈ folds f r ∧ l.lines = (0, 1) ↔ l = ⟨0, 1, some .imports⟩) ∧
      (folds f r).Pairwise LineFold.Before) ∧
    g.UpToDate ∧ ∀ l : LineFold, l = ⟨0, 2, some .region⟩ ∨ l = ⟨4, 5, some .imports⟩ ∨ l = ⟨7, 10, some .region⟩ ∨
      l = ⟨8, 9, some .region⟩ ∨ l = ⟨12, 14, some .region⟩ ∨ l = ⟨16, 18, some .region⟩ → l ∈ folds g r := by
  intro f g r
  let block : Node := .branch .moduleBlock ⟨0, 17⟩ [.leaf .moduleStatement ⟨0, 17⟩]
  have hf : f.UpToDate := upToDate_create _ _ _
  have htree : f.compiled.tree = .ok (.branch .root ⟨0, 18⟩ [block]) := ok_of_toOption (by decide +kernel)
  have hlines : spanLines f.source ⟨0, 17⟩ = (0, 1) := by decide +kernel
  obtain ⟨hbefore, -, hnodes, -⟩ := folds_hold_tree hf r
  have hblock := hnodes _ htree block (Node.mem_preorder_of_child List.mem_cons_self) .imports ⟨0, 17⟩ .moduleBlock
    rfl (by decide) (hlines ▸ by decide)
  rw [hlines] at hblock
  have hg : g.UpToDate := upToDate_create _ _ _
  refine ⟨⟨hf, by decide +kernel, hblock, hbefore⟩, hg, ?_⟩
  let front : Node := .leaf (.frontmatter .yaml ⟨4, 5⟩) ⟨0, 9⟩
  let modules : Node := .branch .moduleBlock ⟨11, 28⟩ [.leaf .moduleStatement ⟨11, 28⟩]
  let inner : Node := .leaf (.blockExpression ⟨⟨35, 37⟩, false⟩) ⟨34, 38⟩
  let outer : Node := .branch (.blockElement ⟨some "A", [], false⟩) ⟨30, 43⟩ [inner]
  let code : Node := .leaf (.code none) ⟨45, 54⟩
  let math : Node := .leaf .math ⟨56, 63⟩
  let root : Node := .branch .root ⟨0, 64⟩ [front, modules, outer, code, math]
  have hroot : g.compiled.tree = .ok root := ok_of_toOption (by decide +kernel)
  obtain ⟨-, -, hkept, -⟩ := folds_hold_tree hg r
  have kept : ∀ n ∈ root.preorder, ∀ {k s a b}, FoldsAs n.kind k → n.span = some s → s.start < s.stop →
      spanLines g.source s = (a, b) → a ≠ b → (⟨a, b, some k⟩ : LineFold) ∈ folds g r := by
    intro n hn k s a b hk hs hlt hlines hne
    have hfold := hkept root hroot n hn k s hk hs hlt
    rw [hlines] at hfold
    exact ((hfold hne _).mpr rfl).1
  rintro l (rfl | rfl | rfl | rfl | rfl | rfl)
  · exact kept front (by decide +kernel) (.frontmatter _ _) rfl (by decide) (by decide +kernel) (by decide)
  · exact kept modules (by decide +kernel) .moduleBlock rfl (by decide) (by decide +kernel) (by decide)
  · exact kept outer (by decide +kernel) (.blockElement _) rfl (by decide) (by decide +kernel) (by decide)
  · exact kept inner (by decide +kernel) (.blockExpression _) rfl (by decide) (by decide +kernel) (by decide)
  · exact kept code (by decide +kernel) (.code _) rfl (by decide) (by decide +kernel) (by decide)
  · exact kept math (by decide +kernel) .math rfl (by decide) (by decide +kernel) (by decide)

end Feature

end Mdx

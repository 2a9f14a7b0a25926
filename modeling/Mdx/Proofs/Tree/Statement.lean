/-
The statements of a module block. One starts at each line of the block that has a
keyword at the left margin and none starts elsewhere (`ModuleStatements.splits`);
they stand in order and leave out nothing but blanks, and the block as a whole is
balanced.

The brackets are checked once for the block, but the block is cut at lines that
start with a keyword, whatever they stand in. So a statement is balanced by itself
only where the cuts are outside of all brackets, strings, templates and comments,
and then all statements are (`ModuleStatements.each`).
-/
import Mdx.Proofs.Script.Balance
import Mdx.Proofs.Trace.Paragraph
import Mdx.Proofs.Tree.Coverage

namespace Mdx

open Cursor

/-- At the offset a line starts, with a keyword at its left margin that is not part of a longer word. -/
structure KeywordLine (cs : List Char) (o : Nat) : Prop where
  line : (atOffset cs o).IsLine cs
  keyword : ∃ word rest, (word = "import" ∨ word = "export") ∧ dropBytes cs o = word.toList ++ rest ∧
    ∀ ch, rest.head? = some ch → isAlphanumeric ch = false ∧ ch ≠ '_' ∧ ch ≠ '$'

/-- What the children of the module block `n` with the span `s` are. -/
structure ModuleStatements (cs : List Char) (n : Node) (s : Span) : Prop where
  span : n.span = some s
  starts : ∀ m ∈ n.children, m.kind = .moduleStatement ∧ ∃ a, m.span = some a ∧ KeywordLine cs a.start
  /-- A keyword line of the block starts a statement, whatever it stands in, and no other place does. -/
  splits : ∀ o, (∃ m ∈ n.children, ∃ a, m.span = some a ∧ a.start = o) ↔
    s.start ≤ o ∧ o < s.stop ∧ KeywordLine cs o
  ordered : n.children.Pairwise fun m m' => ∀ a a', m.span = some a → m'.span = some a' → a.stop ≤ a'.start
  covers : ∀ o ch, ShowsAt cs o ch → s.holdsChar o ch = true → ∃ m ∈ n.children, m.holdsChar o ch = true
  balanced : Script.checkBalanced s.start (slice cs s) = .ok ()
  each : (∀ m ∈ n.children, ∀ a, m.span = some a → Script.checkBalanced a.start (slice cs a) = .ok ()) ↔
    ∀ m ∈ n.children, ∀ a, m.span = some a → Script.OutsideAt (slice cs s) (a.start - s.start)

variable {cs : List Char} {c x y stop : Cursor} {starts : List Cursor}

/-! ## Where statements start -/

theorem startsModule_iff : startsModule c = true ↔ ∃ word rest, (word = "import" ∨ word = "export") ∧
    c.rest = word.toList ++ rest ∧
    ∀ ch, rest.head? = some ch → isAlphanumeric ch = false ∧ ch ≠ '_' ∧ ch ≠ '$' := by
  have hword : ∀ word : String, (c.startsWith word && !(c.rest.drop word.length).head?.any fun ch =>
      isAlphanumeric ch || ch == '_' || ch == '$') = true ↔ ∃ rest, c.rest = word.toList ++ rest ∧
        ∀ ch, rest.head? = some ch → isAlphanumeric ch = false ∧ ch ≠ '_' ∧ ch ≠ '$' := by
    intro word
    rw [Bool.and_eq_true, startsWith, List.isPrefixOf_iff_prefix]
    constructor
    · rintro ⟨⟨rest, hrest⟩, hbehind⟩
      refine ⟨rest, hrest.symm, fun ch hch => ?_⟩
      rw [← hrest, ← String.length_toList, List.drop_left, hch] at hbehind
      simpa [and_assoc] using hbehind
    · rintro ⟨rest, hrest, hbehind⟩
      refine ⟨⟨rest, hrest.symm⟩, ?_⟩
      rw [hrest, ← String.length_toList, List.drop_left]
      cases rest with
      | nil => rfl
      | cons ch rest => simpa [and_assoc] using hbehind ch rfl
  simp only [startsModule, List.any_cons, List.any_nil, Bool.or_false, Bool.or_eq_true, hword]
  constructor
  · rintro (⟨rest, hrest⟩ | ⟨rest, hrest⟩)
    · exact ⟨_, rest, .inl rfl, hrest⟩
    · exact ⟨_, rest, .inr rfl, hrest⟩
  · rintro ⟨word, rest, rfl | rfl, hrest⟩
    · exact .inl ⟨rest, hrest⟩
    · exact .inr ⟨rest, hrest⟩

theorem keywordLine_iff (hx : x.On cs) : KeywordLine cs x.offset ↔ x.IsLine cs ∧ startsModule x = true := by
  have hrest : dropBytes cs x.offset = x.rest := congrArg Cursor.rest hx.atOffset_eq
  rw [startsModule_iff, ← hrest]
  constructor
  · rintro ⟨hline, hkeyword⟩
    exact ⟨hx.atOffset_eq ▸ hline, hkeyword⟩
  · rintro ⟨hline, hkeyword⟩
    exact ⟨hx.atOffset_eq.symm ▸ hline, hkeyword⟩

/-- A statement starts with a letter. -/
theorem head_of_startsModule (h : startsModule c = true) :
    ∃ ch rest, c.rest = ch :: rest ∧ (ch = 'i' ∨ ch = 'e') := by
  obtain ⟨word, rest, rfl | rfl, hrest, -⟩ := startsModule_iff.mp h
  · exact ⟨_, _, hrest, .inl rfl⟩
  · exact ⟨_, _, hrest, .inr rfl⟩

theorem isSpace_of_startsModule (h : startsModule c = true) :
    ∀ ch, c.rest.head? = some ch → Script.isSpace ch = false := by
  obtain ⟨first, rest, hrest, hfirst⟩ := head_of_startsModule h
  intro ch hch
  rw [hrest] at hch
  cases hch
  rcases hfirst with rfl | rfl <;> decide

theorem isLineBlank_of_startsModule (h : startsModule c = true) : c.isLineBlank = false := by
  obtain ⟨first, rest, hrest, hfirst⟩ := head_of_startsModule h
  rw [isLineBlank, line, hrest]
  rcases hfirst with rfl | rfl <;> rfl

/-! ## The lines of a block -/

theorem moduleLines_of_blank (h : c.nextLine.isLineBlank = true) : moduleLines c = [] := by
  rw [moduleLines, laterLines_eq]
  by_cases hnil : c.nextLine.rest = []
  · rw [lines_of_nil hnil, List.takeWhile_nil]
  · rw [lines_of_ne_nil hnil, List.takeWhile_cons_of_neg (by simp [h])]

theorem moduleLines_of_text (h : c.nextLine.isLineBlank = false) :
    moduleLines c = c.nextLine :: moduleLines c.nextLine := by
  have hne : c.nextLine.rest ≠ [] := by
    intro hnil
    simp [isLineBlank, line, hnil] at h
  rw [moduleLines, laterLines_eq, lines_of_ne_nil hne, List.takeWhile_cons_of_pos (by simp [h]), moduleLines,
    laterLines_eq]

theorem moduleLast_of_text (h : c.nextLine.isLineBlank = false) : moduleLast c = moduleLast c.nextLine := by
  rw [moduleLast, moduleLines_of_text h, List.getLast?_cons, Option.getD_some, moduleLast]

/-- Each line that starts in a block is one of its lines. -/
theorem mem_moduleLines (hc : c.On cs) (hy : y.IsLine cs) (hlt : c.offset < y.offset)
    (hle : y.offset ≤ (moduleLast c).lineEnd.offset) : y ∈ moduleLines c := by
  have hreach := hy.reaches_of_lt hc hlt
  induction c using line_induction with
  | nil c hnil => exact absurd hnil ((hc.reaches_of_le hy.on (Nat.le_of_lt hlt)).rest_ne_nil hy.nonempty)
  | cons c _ ih =>
    cases hblank : c.nextLine.isLineBlank with
    | true =>
      rw [moduleLast, moduleLines_of_blank hblank] at hle
      exact absurd (hy.lineEnd_lt hc hlt) (Nat.not_lt.mpr hle)
    | false =>
      rw [moduleLines_of_text hblank]
      by_cases hsame : y.offset = c.nextLine.offset
      · rw [hreach.eq_of_offset_eq (.refl _) hsame]
        exact List.mem_cons_self
      · have hnext := hc.reaches (reaches_nextLine c)
        have hlt' : c.nextLine.offset < y.offset := Nat.lt_of_le_of_ne hreach.le (Ne.symm hsame)
        rw [moduleLast_of_text hblank] at hle
        exact List.mem_cons_of_mem _ (ih hnext hlt' hle (hy.reaches_of_lt hnext hlt'))

/-- The places where the statements of a module block start: the first one is the start of the block,
and the others are behind line feeds. -/
structure StatementStarts (cs : List Char) (c : Cursor) (starts : List Cursor) (stop : Cursor) : Prop where
  on : c.On cs
  ordered : (c :: starts).Pairwise Reaches
  before : ∀ s ∈ c :: starts, s.Reaches stop
  keyword : ∀ s ∈ c :: starts, startsModule s = true
  line : ∀ s ∈ starts, ∃ y : Cursor, y.On cs ∧ y.Path ['\n'] s

theorem StatementStarts.tail (h : StatementStarts cs c (x :: starts) stop) : StatementStarts cs x starts stop where
  on := h.on.reaches ((List.pairwise_cons.mp h.ordered).1 x (by simp))
  ordered := (List.pairwise_cons.mp h.ordered).2
  before := fun s hs => h.before s (List.mem_cons_of_mem _ hs)
  keyword := fun s hs => h.keyword s (List.mem_cons_of_mem _ hs)
  line := fun s hs => h.line s (List.mem_cons_of_mem _ hs)

/-- A statement starts with a word. -/
theorem StatementStarts.isSpace {t : List Char} (h : StatementStarts cs x starts stop) (hp : x.Path t y) :
    ∀ ch, t.head? = some ch → Script.isSpace ch = false := by
  intro ch hch
  refine isSpace_of_startsModule (h.keyword x (by simp)) ch ?_
  rw [hp.rest, List.head?_append, hch]
  rfl

/-- The text up to the start of a statement ends its line. -/
theorem endsLine_of_path {t : List Char} (hx : x.On cs) (hp : x.Path t c) (hy : y.On cs)
    (hfeed : y.Path ['\n'] c) : Script.EndsLine t := by
  by_cases hle : x.offset ≤ y.offset
  · obtain ⟨u, hu⟩ := hx.reaches_of_le hy hle
    have ht : t = u ++ ['\n'] := hp.upTo.symm.trans (hu.trans hfeed).upTo
    exact .inr (by rw [ht, List.getLast?_concat])
  · have hlast : c.offset = y.offset + 1 := hfeed.offset
    have hlength := hp.offset
    exact .inl (byteLength_eq_zero (by omega))

/-- A statement is balanced if and only if it is with the blanks behind it. -/
theorem balanced_trimmed {t : List Char} (hx : x.On cs) (hp : x.Path t y) :
    Script.Balanced (slice cs (x.spanTo (x.trimmedTo y.offset).offset)) ↔ Script.Balanced t := by
  obtain ⟨gap, htrimmed, -, ht, hblank⟩ := path_trimmedTo hp
  rw [hx.slice htrimmed]
  rw [← Script.balanced_append_blanks hblank, ← ht]

/-! ## Statements and the places between them -/

theorem moduleStatements_single (x : Cursor) (stop : Nat) : moduleStatements [x] stop =
    [.leaf .moduleStatement (x.spanTo (x.trimmedTo stop).offset)] := rfl

theorem moduleStatements_cons (x y : Cursor) (starts : List Cursor) (stop : Nat) :
    moduleStatements (x :: y :: starts) stop =
      .leaf .moduleStatement (x.spanTo (x.trimmedTo y.offset).offset) ::
        moduleStatements (y :: starts) stop := rfl

theorem Script.EndsLine.append {before t : List Char} (h : Script.EndsLine before) (ht : Script.EndsLine t) :
    Script.EndsLine (before ++ t) := by
  rcases ht with rfl | ht
  · rwa [List.append_nil]
  · exact .inr (by rw [List.getLast?_append, ht]; rfl)

/-- A statement starts where nothing is open if what is before it in the block is balanced. -/
theorem StatementStarts.outsideAt {before behind : List Char} (h : StatementStarts cs x starts stop)
    (hbefore : c.Path before x) (hbehind : x.Path behind stop) (hbalanced : Script.Balanced before)
    (hline : Script.EndsLine before) : Script.OutsideAt (before ++ behind) (x.offset - c.offset) := by
  rw [hbefore.offset, Nat.add_sub_cancel_left]
  exact Script.outsideAt_append hbalanced hline (h.isSpace hbehind)

/-- Balanced statements start where nothing is open. -/
theorem outsideAt_of_balanced {before behind : List Char} (h : StatementStarts cs x starts stop)
    (hbefore : c.Path before x) (hbehind : x.Path behind stop) (hbalanced : Script.Balanced before)
    (hline : Script.EndsLine before)
    (heach : ∀ m ∈ moduleStatements (x :: starts) stop.offset, ∀ a, m.span = some a →
      Script.Balanced (slice cs a)) :
    ∀ s ∈ x :: starts, Script.OutsideAt (before ++ behind) (s.offset - c.offset) := by
  have hfirst := h.outsideAt hbefore hbehind hbalanced hline
  -- What is before the next statement stays balanced with each statement that is.
  induction starts generalizing x before behind with
  | nil =>
    intro s hs
    rw [List.mem_singleton.mp hs]
    exact hfirst
  | cons y starts ih =>
    rw [moduleStatements_cons] at heach
    obtain ⟨hstatement, hlater⟩ := List.forall_mem_cons.mp heach
    obtain ⟨t, ht⟩ := (List.pairwise_cons.mp h.ordered).1 y (by simp)
    obtain ⟨u, rfl, hu⟩ := ht.split hbehind (h.tail.before y (by simp)).le
    obtain ⟨z, hz, hfeed⟩ := h.line y (by simp)
    have htext : Script.Balanced t := (balanced_trimmed h.on ht).mp (hstatement _ rfl)
    have hbalanced' := Script.balanced_append hbalanced hline htext (h.isSpace ht)
    have hline' := hline.append (endsLine_of_path h.on ht hz hfeed)
    have hbefore' := hbefore.trans ht
    refine List.forall_mem_cons.mpr ⟨hfirst, ?_⟩
    rw [← List.append_assoc]
    exact ih h.tail hbefore' hu hbalanced' hline' hlater (h.tail.outsideAt hbefore' hu hbalanced' hline')

/-- Statements that start where nothing is open are balanced, since the block is. -/
theorem balanced_of_outsideAt {before behind : List Char} (h : StatementStarts cs x starts stop)
    (hbefore : c.Path before x) (hbehind : x.Path behind stop) (hwhole : Script.Balanced (before ++ behind))
    (houtside : ∀ s ∈ x :: starts, Script.OutsideAt (before ++ behind) (s.offset - c.offset)) :
    ∀ m ∈ moduleStatements (x :: starts) stop.offset, ∀ a, m.span = some a → Script.Balanced (slice cs a) := by
  have place : ∀ {t : List Char} {s : Cursor}, c.Path t s → s.offset - c.offset = byteLength t := by
    intro t s hp
    rw [hp.offset, Nat.add_sub_cancel_left]
  induction starts generalizing x before behind with
  | nil =>
    have hstart := houtside x (by simp)
    rw [place hbefore] at hstart
    intro m hm a ha
    rw [moduleStatements_single, List.mem_singleton] at hm
    subst hm
    cases ha
    exact (balanced_trimmed h.on hbehind).mpr (Script.balanced_behind hwhole hstart)
  | cons y starts ih =>
    obtain ⟨t, ht⟩ := (List.pairwise_cons.mp h.ordered).1 y (by simp)
    obtain ⟨u, rfl, hu⟩ := ht.split hbehind (h.tail.before y (by simp)).le
    have hbefore' := hbefore.trans ht
    rw [← List.append_assoc] at hwhole houtside
    obtain ⟨hstart, hlater⟩ := List.forall_mem_cons.mp houtside
    have hnext := hlater y (by simp)
    rw [place hbefore] at hstart
    rw [place hbefore'] at hnext
    rw [moduleStatements_cons]
    refine List.forall_mem_cons.mpr ⟨fun a ha => ?_, ih h.tail hbefore' hu hwhole hlater⟩
    cases ha
    exact (balanced_trimmed h.on ht).mpr (Script.balanced_between hstart hnext)

/-! ## Module blocks -/

/-- The statements of a block have spans that start where the statements do. -/
theorem forall_moduleStatements {P : Nat → Prop} {stop : Nat} :
    (∀ m ∈ moduleStatements (x :: starts) stop, ∀ a, m.span = some a → P a.start) ↔
      ∀ s ∈ x :: starts, P s.offset := by
  have leaf : ∀ {s : Cursor} {limit : Nat}, (∀ a, (Node.leaf .moduleStatement (s.spanTo limit)).span = some a →
      P a.start) ↔ P s.offset := by
    intro s limit
    simp [Node.leaf, Node.span, spanTo]
  induction starts generalizing x with
  | nil => rw [moduleStatements_single, List.forall_mem_singleton, List.forall_mem_singleton, leaf]
  | cons y starts ih =>
    rw [moduleStatements_cons, List.forall_mem_cons, List.forall_mem_cons, leaf]
    exact and_congr_right fun _ => ih

theorem exists_moduleStatement_iff {o stop : Nat} :
    (∃ m ∈ moduleStatements (x :: starts) stop, ∃ a, m.span = some a ∧ a.start = o) ↔
      ∃ s ∈ x :: starts, s.offset = o := by
  have h : (∀ m ∈ moduleStatements (x :: starts) stop, ∀ a, m.span = some a → a.start ≠ o) ↔
      ∀ s ∈ x :: starts, s.offset ≠ o := forall_moduleStatements (P := (· ≠ o))
  simpa only [Classical.not_forall, Decidable.not_not, exists_prop, ne_eq] using not_congr h

theorem StatementStarts.of_readModule (hc : c.On cs) (hkeyword : startsModule c = true) :
    StatementStarts cs c ((moduleLines c).filter startsModule)
      (c.trimmedTo (moduleLast c).lineEnd.offset) where
  on := hc
  ordered := moduleStarts_pairwise c
  before := fun _ => reaches_moduleStop
  keyword := List.forall_mem_cons.mpr ⟨hkeyword, fun _ hs => (List.mem_filter.mp hs).2⟩
  line := by
    intro s hs
    have hlater := (moduleLines_sublist c).subset (List.mem_filter.mp hs).1
    obtain ⟨y, hy, hfeed⟩ := exists_newline_of_mem_laterLines hlater
    exact ⟨y, hc.reaches hy, hfeed⟩

/-- The starts of statements are starts of lines. -/
theorem StatementStarts.isLine (h : StatementStarts cs c starts stop) (hline : c.IsLine cs) :
    ∀ s ∈ c :: starts, s.IsLine cs := by
  refine List.forall_mem_cons.mpr ⟨hline, fun s hs => ?_⟩
  obtain ⟨y, hy, hfeed⟩ := h.line s hs
  have hkeyword := h.keyword s (List.mem_cons_of_mem _ hs)
  refine ⟨hy.reaches hfeed.reaches, .inr ?_, ?_⟩
  · have hoffset : s.offset = y.offset + 1 := hfeed.offset
    rw [precededBy, hoffset, Nat.add_sub_cancel, charAt?_offset hy hfeed.rest]
    simp
  · intro hnil
    simp [startsModule, startsWith, hnil] at hkeyword

theorem lt_moduleStop (hx : x ∈ c :: (moduleLines c).filter startsModule) (hkeyword : startsModule x = true) :
    x.offset < (c.trimmedTo (moduleLast c).lineEnd.offset).offset := by
  have hstop := reaches_moduleStop hx
  refine Nat.lt_of_le_of_ne hstop.le fun hsame => ?_
  obtain ⟨-, tail, htail, hblank⟩ := path_moduleStop c
  rw [← Reaches.eq_of_offset_eq (.refl x) hstop hsame] at htail
  have hline := isLineBlank_of_path htail hblank (isLineEnd_lineEnd _)
  rw [isLineBlank_of_startsModule hkeyword] at hline
  cases hline

/-- Statements start at the keyword lines of the block. -/
theorem exists_moduleStart_iff {o : Nat} (hline : c.IsLine cs) (hkeyword : startsModule c = true) :
    (∃ x ∈ c :: (moduleLines c).filter startsModule, x.offset = o) ↔
      c.offset ≤ o ∧ o < (c.trimmedTo (moduleLast c).lineEnd.offset).offset ∧ KeywordLine cs o := by
  have hstarts := StatementStarts.of_readModule hline.on hkeyword
  constructor
  · rintro ⟨x, hx, rfl⟩
    have hxline := hstarts.isLine hline x hx
    have hreach : c.Reaches x := by
      rcases List.mem_cons.mp hx with rfl | hlater
      · exact .refl x
      · exact (List.pairwise_cons.mp hstarts.ordered).1 x hlater
    exact ⟨hreach.le, lt_moduleStop hx (hstarts.keyword x hx),
      (keywordLine_iff hxline.on).mpr ⟨hxline, hstarts.keyword x hx⟩⟩
  · rintro ⟨hle, hlt, hword⟩
    obtain ⟨hyline, hykeyword⟩ := (keywordLine_iff hword.line.on).mp hword
    refine ⟨atOffset cs o, ?_, rfl⟩
    rcases Nat.eq_or_lt_of_le hle with rfl | hlater
    · rw [hline.on.atOffset_eq]
      exact List.mem_cons_self
    · obtain ⟨-, tail, htail, -⟩ := path_moduleStop c
      have hend : o ≤ (moduleLast c).lineEnd.offset := Nat.le_trans (Nat.le_of_lt hlt) htail.reaches.le
      exact List.mem_cons_of_mem _
        (List.mem_filter.mpr ⟨mem_moduleLines hline.on hyline hlater hend, hykeyword⟩)

theorem moduleStatements_of_readModule {n : Node} {next : Cursor} (h : readModule c = .ok (n, next))
    (hline : c.IsLine cs) (hkeyword : startsModule c = true) : ∃ s, ModuleStatements cs n s := by
  have hstarts := StatementStarts.of_readModule hline.on hkeyword
  unfold readModule moduleParts at h
  obtain ⟨⟨⟩, hbalanced, h⟩ := ok_of_bind h
  cases h
  obtain ⟨t, ht⟩ := hstarts.before c (by simp)
  have hslice := hline.on.slice ht
  rw [ht.upTo] at hbalanced
  obtain ⟨hlaid, -⟩ := laid_moduleStatements hline.on hstarts.ordered hstarts.before
  have hlines : ∀ s ∈ c :: (moduleLines c).filter startsModule, KeywordLine cs s.offset := by
    intro s hs
    have hs' := hstarts.isLine hline s hs
    exact (keywordLine_iff hs'.on).mpr ⟨hs', hstarts.keyword s hs⟩
  refine ⟨_, rfl, fun m hm => ?_, fun _ => exists_moduleStatement_iff.trans (exists_moduleStart_iff hline hkeyword),
    hlaid.pairwise, fun o ch hshows hin => ?_, hslice ▸ hbalanced, ?_⟩
  · refine ⟨kind_of_mem_moduleStatements hm, ?_⟩
    have hstart := (forall_moduleStatements (P := KeywordLine cs)).mpr hlines m hm
    obtain ⟨p, -, rfl⟩ := List.mem_map.mp hm
    exact ⟨_, rfl, hstart _ rfl⟩
  · have hsize := ch.utf8Size_pos
    simp only [Span.holdsChar_iff, spanTo] at hin
    exact hlaid.holdsChar hline.on hshows hin.1 (by omega)
  · rw [hslice]
    simp only [Script.checkBalanced_eq_ok_iff] at hbalanced ⊢
    refine Iff.trans ?_ (forall_moduleStatements (P := fun o => Script.OutsideAt t (o - c.offset))).symm
    exact ⟨outsideAt_of_balanced hstarts (.refl c) ht Script.balanced_nil (.inl rfl),
      balanced_of_outsideAt hstarts (.refl c) ht hbalanced⟩

/-- Statements have nothing below them. -/
theorem children_of_readModule {n : Node} {next : Cursor} (h : readModule c = .ok (n, next)) :
    ∀ m ∈ n.children, m.children = [] := by
  unfold readModule at h
  obtain ⟨⟨⟩, -, h⟩ := ok_of_bind h
  cases h
  intro m hm
  obtain ⟨part, -, rfl⟩ := List.mem_map.mp hm
  rfl

/-- A line that opens a module block starts with a keyword at the left margin. -/
theorem LineOpens.moduleBlock {math : Bool} {container : Option Tag} {line next : Cursor} {n : Node}
    (h : LineOpens math container line (.block n next)) (hkind : n.kind = .moduleBlock) :
    line.skipIndent = line ∧ startsModule line = true ∧ readModule line = .ok (n, next) := by
  cases opens_of_openLine h.opens with
  | moduleBlock _ hoffset hkeyword hread =>
    have hsame : line.skipIndent = line :=
      (reaches_skipIndent line).eq_of_offset_eq (.refl line) hoffset
    rw [hsame] at hkeyword hread
    exact ⟨hsame, hkeyword, hread⟩
  | @fenced fence _ =>
    have hfenced := kind_readFenced fence container line.skipIndent
    rw [hkind] at hfenced
    cases hfenced
  | heading _ hread =>
    rw [kind_readHeading hread] at hkind
    cases hkind
  | thematicBreak => cases hkind
  | expression hread =>
    obtain ⟨e, s, rfl⟩ := kind_readFlowExpression? hread
    cases hkind
  | paragraph _ _ _ _ hread =>
    rw [kind_readParagraph hread] at hkind
    cases hkind

/-- **Module blocks are cut into statements at keyword lines.** The statements start at the left margin
with a keyword, one at each line of the block that has one there; they are in order and cover all that
shows, and the block is balanced. All of them are balanced by themselves if and only if none starts inside
a bracket, a string, a template or a comment of the block. -/
theorem parse_splits_modules {options : ParseOptions} {root : Node} (h : parse options cs = .ok root) :
    ∀ n ∈ root.preorder, n.kind = .moduleBlock → ∃ s, ModuleStatements cs n s := by
  refine forall_mem_parse h ?_ ?_ ?_ ?_ ?_ ?_
  · intro front flow nodes _ _ _ hkind
    cases hkind
  · intro dialect value span hkind
    cases hkind
  · intro container line next n hline hopens hkind
    obtain ⟨hsame, hkeyword, hread⟩ := hopens.moduleBlock hkind
    have hne := rest_ne_nil_of_isLineEnd hopens.notBlank
    rw [hsame] at hne
    exact moduleStatements_of_readModule hread (hline.isLine hne) hkeyword
  · intro m hm hkind
    rcases (forall_mem_preorder.mp hm).1 with hstatement | hinline
    · rw [hstatement] at hkind
      cases hkind
    · have hinline := hinline.inline
      rw [hkind] at hinline
      cases hinline
  · intro container line next tag _ _ _ hkind
    cases hkind
  · intro container line next after tag closed inner _ _ _ _ hkind
    cases hkind

/-- A block of two statements, the second one over two lines, of which one has a keyword that is not at the
left margin. -/
theorem parse_splits_modules_bracket :
    let cs := "import 'a'\nexport let b = [\n import]\n".toList
    ∃ root n, parse .plain cs = .ok root ∧ n ∈ root.preorder ∧ n.kind = .moduleBlock ∧
      n.children.map Node.span = [some ⟨0, 10⟩, some ⟨11, 36⟩] ∧ ModuleStatements cs n ⟨0, 36⟩ ∧
      ∀ o < 36, KeywordLine cs o ↔ o = 0 ∨ o = 11 := by
  intro cs
  let n : Node := .branch .moduleBlock ⟨0, 36⟩ [.leaf .moduleStatement ⟨0, 10⟩, .leaf .moduleStatement ⟨11, 36⟩]
  have hparse : parse .plain cs = .ok (.branch .root ⟨0, 37⟩ [n]) := ok_of_toOption (by decide +kernel)
  have hmem : n ∈ (Node.branch .root ⟨0, 37⟩ [n]).preorder := Node.mem_preorder_of_child List.mem_cons_self
  obtain ⟨s, hs⟩ := parse_splits_modules hparse n hmem rfl
  obtain rfl : ⟨0, 36⟩ = s := Option.some.inj hs.span
  refine ⟨_, n, hparse, hmem, rfl, rfl, hs, fun o ho => ?_⟩
  have hstarts : (∃ m ∈ n.children, ∃ a, m.span = some a ∧ a.start = o) ↔ o = 0 ∨ o = 11 := by
    simp [n, Node.branch, Node.leaf, Node.children, Node.span, eq_comm]
  rw [← hstarts, hs.splits]
  exact ⟨fun h => ⟨Nat.zero_le o, ho, h⟩, fun h => h.2.2⟩

/-- A template that holds a line with a keyword is cut there, and what stands from there on is not
balanced. -/
theorem parse_splits_template : ∃ root n a e,
    parse .plain "export const a = \x60\nimport b\n\x60\n".toList = .ok root ∧ n ∈ root.preorder ∧
      n.kind = .moduleStatement ∧ n.span = some a ∧
      Script.checkBalanced a.start (slice "export const a = \x60\nimport b\n\x60\n".toList a) = .error e := by
  have hparse : parse .plain "export const a = \x60\nimport b\n\x60\n".toList =
      .ok (.branch .root ⟨0, 30⟩ [.branch .moduleBlock ⟨0, 29⟩
        [.leaf .moduleStatement ⟨0, 18⟩, .leaf .moduleStatement ⟨19, 29⟩]]) :=
    ok_of_toOption (by decide +kernel)
  have herror : Script.checkBalanced 19
      (slice "export const a = \x60\nimport b\n\x60\n".toList ⟨19, 29⟩) =
        .error ⟨.unterminatedInModule, ⟨28, 29⟩⟩ := error_of_failure? (by decide +kernel)
  exact ⟨_, .leaf .moduleStatement ⟨19, 29⟩, _, _, hparse, by decide +kernel, rfl, rfl, herror⟩

end Mdx

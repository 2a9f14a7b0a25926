/-
Constructs that take whole lines. Each one that is read starts at the cursor,
and between its end and the line where reading goes on only blanks are passed
over (`TakesLines`), so no character that shows is lost between two constructs.
-/
import Mdx.Document
import Mdx.Proofs.Tree.Inline

namespace Mdx

open Cursor

/-- `next` is the line behind a place that is reached from `c`. -/
def Cursor.LineBehind (c next : Cursor) : Prop := ∃ x, c.Reaches x ∧ next = x.nextLine

/-- The node was read at `c` and reading goes on at `next`: the node is placed with all below it, it
starts at `c`, only blanks are between its end and `next`, and whole lines were read, at least one. -/
structure TakesLines (cs : List Char) (c : Cursor) (n : Node) (next : Cursor) : Prop where
  ends : ∃ b gap, c.Reaches b ∧ n.span = some (c.spanTo b.offset) ∧ b.Path gap next ∧
    ∀ ch ∈ gap, isBlank ch = true
  placed : ∀ m ∈ n.preorder, Placed cs m
  shorter : next.rest.length < c.rest.length
  behind : c.LineBehind next

namespace Cursor

variable {c d : Cursor}

theorem length_nextLine_lt_of_reaches (hc : c.rest ≠ []) (h : c.Reaches d) :
    d.nextLine.rest.length < c.rest.length := by
  have hle := h.length_le
  by_cases hd : d.rest = []
  · have hn := (reaches_nextLine d).length_le
    have := List.length_pos_iff.mpr hc
    rw [hd, List.length_nil] at hn
    omega
  · have := length_nextLine_lt hd
    omega

theorem path_trimmedLineEnd_nextLine (c : Cursor) :
    ∃ gap, c.trimmedLineEnd.Path gap c.nextLine ∧ ∀ ch ∈ gap, isBlank ch = true := by
  obtain ⟨tail, -, htail, hblank⟩ := path_trimmedLineEnd c
  obtain ⟨b, hb, hblank'⟩ := path_nextLine_of_lineEnd (isLineEnd_lineEnd c)
  exact ⟨_, htail.trans hb, List.forall_mem_append.mpr ⟨hblank, hblank'⟩⟩

theorem reaches_trimmedLineEnd (c : Cursor) : c.Reaches c.trimmedLineEnd := by
  obtain ⟨tail, h, -⟩ := path_trimmedLineEnd c
  exact h.reaches

end Cursor

variable {cs : List Char} {c : Cursor}

/-- A construct that ends at a place with nothing but blanks behind it on its line. -/
theorem TakesLines.of_isLineBlank {b : Cursor} {n : Node} (hc : c.rest ≠ []) (hb : c.Reaches b)
    (hspan : n.span = some (c.spanTo b.offset)) (hblank : b.isLineBlank = true)
    (hplaced : ∀ m ∈ n.preorder, Placed cs m) : TakesLines cs c n b.nextLine := by
  obtain ⟨gap, hgap, hall⟩ := path_nextLine_of_blank hblank
  exact ⟨⟨b, gap, hb, hspan, hgap, hall⟩, hplaced, length_nextLine_lt_of_reaches hc hb, b, hb, rfl⟩

/-- A construct that ends with its line, but for blanks. -/
theorem TakesLines.of_trimmedLineEnd {n : Node} (hc : c.rest ≠ [])
    (hspan : n.span = some (c.spanTo c.trimmedLineEnd.offset))
    (hplaced : ∀ m ∈ n.preorder, Placed cs m) : TakesLines cs c n c.nextLine := by
  obtain ⟨gap, hgap, hall⟩ := path_trimmedLineEnd_nextLine c
  exact ⟨⟨_, gap, reaches_trimmedLineEnd c, hspan, hgap, hall⟩, hplaced, length_nextLine_lt hc, c,
    .refl c, rfl⟩

/-! ## Module code -/

/-- The statements that start at the given places, of which the last one goes on to `stop`. -/
def moduleStatements (starts : List Cursor) (stop : Nat) : List Node :=
  (starts.zip ((starts.drop 1).map Cursor.offset ++ [stop])).map fun (start, limit) =>
    Node.leaf .moduleStatement (start.spanTo (start.trimmedTo limit).offset)

theorem kind_of_mem_moduleStatements {starts : List Cursor} {stop : Nat} {n : Node}
    (h : n ∈ moduleStatements starts stop) : n.kind = .moduleStatement := by
  obtain ⟨p, -, rfl⟩ := List.mem_map.mp h
  rfl

/-- Each statement ends before the next one but for blanks. -/
theorem laid_moduleStatements {stop : Cursor} : ∀ {starts : List Cursor} {c : Cursor}, c.On cs →
    (c :: starts).Pairwise Reaches → (∀ s ∈ c :: starts, s.Reaches stop) →
    Laid isBlank c (moduleStatements (c :: starts) stop.offset) stop ∧
      ∀ m ∈ preorderAll (moduleStatements (c :: starts) stop.offset), Placed cs m
  | [], c, hc, _, hstop => by
    obtain ⟨t, ht⟩ := hstop c (by simp)
    obtain ⟨tail, h₁, h₂, -, hblank⟩ := path_trimmedTo ht
    refine ⟨.cons (.refl c) (by simp) h₁.reaches rfl (.nil h₂ hblank), ?_⟩
    exact forall_mem_preorderAll_cons.mpr ⟨placed_leaf hc h₁.reaches .moduleStatement, by simp [preorderAll]⟩
  | s :: starts, c, hc, hpair, hstop => by
    obtain ⟨hcs, hrest⟩ := List.pairwise_cons.mp hpair
    obtain ⟨t, ht⟩ := hcs s (by simp)
    obtain ⟨tail, h₁, h₂, -, hblank⟩ := path_trimmedTo ht
    obtain ⟨hlaid, hplaced⟩ :=
      laid_moduleStatements (hc.reaches ht.reaches) hrest fun x hx => hstop x (by simp [hx])
    refine ⟨.cons (.refl c) (by simp) h₁.reaches rfl (.before h₂ hblank hlaid), ?_⟩
    exact forall_mem_preorderAll_cons.mpr ⟨placed_leaf hc h₁.reaches .moduleStatement, hplaced⟩

/-- A line that is not blank starts before the blanks at the end of the text around it. -/
theorem reaches_trimmedTo {l d : Cursor} (hl : c.Reaches l) (hd : l.Reaches d)
    (hend : d.isLineEnd = true) (hblank : l.isLineBlank = false) : l.Reaches (c.trimmedTo d.offset) := by
  obtain ⟨t, ht⟩ := hl.trans hd
  obtain ⟨tail, h₁, h₂, -, hall⟩ := path_trimmedTo ht
  by_cases hle : l.offset ≤ (c.trimmedTo d.offset).offset
  · exact hl.of_le h₁.reaches hle
  · obtain ⟨u, hu⟩ := h₁.reaches.of_le hl (by omega)
    obtain ⟨v, rfl, hv⟩ := hu.split h₂ hd.le
    have := isLineBlank_of_path hv (fun ch hch => hall ch (List.mem_append_right _ hch)) hend
    rw [hblank] at this
    cases this

theorem moduleLines_sublist (c : Cursor) : (moduleLines c).Sublist c.laterLines :=
  List.takeWhile_sublist _

theorem isLineBlank_of_mem_moduleLines {l : Cursor} (h : l ∈ moduleLines c) : l.isLineBlank = false := by
  have := List.all_eq_true.mp (List.all_takeWhile (l := c.laterLines)) l h
  simpa using this

theorem reaches_moduleLast {l : Cursor} (h : l = c ∨ l ∈ moduleLines c) : l.Reaches (moduleLast c) :=
  reaches_getLast? (moduleLines_sublist c) h

theorem moduleStarts_pairwise (c : Cursor) :
    (c :: (moduleLines c).filter startsModule).Pairwise Reaches := by
  have hsub := (List.filter_sublist (p := startsModule)).trans (moduleLines_sublist c)
  refine .cons (fun l hl => reaches_of_mem_laterLines (hsub.subset hl)) ?_
  exact (lines_pairwise c.nextLine).sublist (laterLines_eq c ▸ hsub)

/-- Only blanks are between the end of a module block and that of its last line. -/
theorem path_moduleStop (c : Cursor) : c.Reaches (c.trimmedTo (moduleLast c).lineEnd.offset) ∧ ∃ tail,
    (c.trimmedTo (moduleLast c).lineEnd.offset).Path tail (moduleLast c).lineEnd ∧
      ∀ ch ∈ tail, isBlank ch = true := by
  obtain ⟨t, ht⟩ := (reaches_moduleLast (c := c) (.inl rfl)).trans (path_lineEnd _).reaches
  obtain ⟨tail, hstop, htail, -, hblank⟩ := path_trimmedTo ht
  exact ⟨hstop.reaches, tail, htail, hblank⟩

/-- The end of a module block is behind all its statements. -/
theorem reaches_moduleStop {s : Cursor} (hs : s ∈ c :: (moduleLines c).filter startsModule) :
    s.Reaches (c.trimmedTo (moduleLast c).lineEnd.offset) := by
  have hend := (path_lineEnd (moduleLast c)).reaches
  rcases List.mem_cons.mp hs with rfl | hs
  · exact (path_moduleStop s).1
  · have hmem := (List.mem_filter.mp hs).1
    exact reaches_trimmedTo (reaches_of_mem_laterLines ((moduleLines_sublist c).subset hmem))
      ((reaches_moduleLast (.inr hmem)).trans hend) (isLineEnd_lineEnd _)
      (isLineBlank_of_mem_moduleLines hmem)

theorem readModule_ok {n : Node} {next : Cursor} (h : readModule c = .ok (n, next)) (hc : c.On cs)
    (hne : c.rest ≠ []) : TakesLines cs c n next := by
  unfold readModule moduleParts at h
  obtain ⟨⟨⟩, -, h⟩ := ok_of_bind h
  simp only [pure, Except.pure, Except.ok.injEq, Prod.mk.injEq] at h
  obtain ⟨rfl, rfl⟩ := h
  have hlast := reaches_moduleLast (c := c) (.inl rfl)
  obtain ⟨hstop, tail, htail, hblank⟩ := path_moduleStop c
  obtain ⟨hlaid, hplaced⟩ :=
    laid_moduleStatements hc (moduleStarts_pairwise c) fun _ => reaches_moduleStop
  obtain ⟨b, hb, hblank'⟩ := path_nextLine_of_lineEnd (isLineEnd_lineEnd (moduleLast c))
  refine ⟨⟨_, _, hstop, rfl, htail.trans hb, List.forall_mem_append.mpr ⟨hblank, hblank'⟩⟩, ?_,
    length_nextLine_lt_of_reaches hne hlast, _, hlast, rfl⟩
  exact placed_branch hc hstop
    (.moduleBlock (fun _ hm => kind_of_mem_moduleStatements hm) hlaid) hplaced

/-! ## Fenced content -/

/-- Fenced content ends behind the lines that were read, and only blanks are between its end and the
line where reading goes on. -/
theorem fencedEnd_ok (fence : Fence) (container : Option Tag) (next : Cursor) :
    ∀ {e : Cursor} {gap : List Char}, c.Reaches e → e.Path gap next → (∀ ch ∈ gap, isBlank ch = true) →
      ∃ e' next' gap', fencedEnd fence container e.offset next next.lines = (e'.offset, next') ∧
        c.Reaches e' ∧ e'.Path gap' next' ∧ (∀ ch ∈ gap', isBlank ch = true) ∧ next.Reaches next' := by
  induction next using line_induction with
  | nil next hnil =>
    intro e gap he hgap hblank
    rw [lines_of_nil hnil]
    exact ⟨e, next, gap, rfl, he, hgap, hblank, .refl _⟩
  | cons next hne ih =>
    intro e gap he hgap hblank
    have hnext : c.Reaches next := he.trans hgap.reaches
    rw [lines_of_ne_nil hne]
    simp only [fencedEnd]
    split
    · exact ⟨e, next, gap, rfl, he, hgap, hblank, .refl _⟩
    split
    · obtain ⟨gap', hgap', hblank'⟩ := path_trimmedLineEnd_nextLine next
      exact ⟨_, _, gap', rfl, hnext.trans (reaches_trimmedLineEnd next), hgap', hblank',
        reaches_nextLine next⟩
    split
    · next hline =>
      obtain ⟨b, hb, hblank'⟩ := path_nextLine_of_blank hline
      obtain ⟨e', next', gap', heq, he', hgap', hall, hreach⟩ :=
        ih he (hgap.trans hb) (List.forall_mem_append.mpr ⟨hblank, hblank'⟩)
      exact ⟨e', next', gap', heq, he', hgap', hall, (reaches_nextLine next).trans hreach⟩
    · obtain ⟨b, hb, hblank'⟩ := path_nextLine_of_lineEnd (isLineEnd_lineEnd next)
      obtain ⟨e', next', gap', heq, he', hgap', hall, hreach⟩ :=
        ih (hnext.trans (path_lineEnd next).reaches) hb hblank'
      exact ⟨e', next', gap', heq, he', hgap', hall, (reaches_nextLine next).trans hreach⟩

theorem fencedEnd_behind (fence : Fence) (container : Option Tag) (next : Cursor) :
    ∀ stop : Nat, c.LineBehind next → c.LineBehind (fencedEnd fence container stop next next.lines).2 := by
  induction next using line_induction with
  | nil next hnil =>
    intro stop h
    rw [lines_of_nil hnil]
    exact h
  | cons next hne ih =>
    intro stop h
    have hlater : c.LineBehind next.nextLine := by
      obtain ⟨x, hx, rfl⟩ := h
      exact ⟨_, hx.trans (reaches_nextLine x), rfl⟩
    rw [lines_of_ne_nil hne]
    simp only [fencedEnd]
    split
    · exact h
    split
    · exact hlater
    · exact ih _ hlater

theorem readFenced_ok (fence : Fence) (container : Option Tag) (hc : c.On cs) (hne : c.rest ≠ []) :
    TakesLines cs c (readFenced fence container c).1 (readFenced fence container c).2 := by
  obtain ⟨gap, hgap, hblank⟩ := path_trimmedLineEnd_nextLine c
  obtain ⟨e, next, gap', heq, he, hgap', hblank', hnext⟩ :=
    fencedEnd_ok fence container c.nextLine (reaches_trimmedLineEnd c) hgap hblank
  have hlt := length_nextLine_lt hne
  have hle := hnext.length_le
  have hbehind := fencedEnd_behind fence container c.nextLine c.trimmedLineEnd.offset ⟨c, .refl c, rfl⟩
  rw [heq] at hbehind
  simp only [readFenced, laterLines_eq, heq]
  refine ⟨⟨e, gap', he, rfl, hgap', hblank'⟩, ?_, by omega, hbehind⟩
  split
  · exact placed_leaf hc he .math
  · exact placed_leaf hc he .code

/-! ## Headings -/

theorem getLast?_trimRight {ts : List Char} {ch : Char} (h : (trimRight ts).getLast? = some ch) :
    isBlank ch = false := by
  rw [trimRight, trimRightBy, List.getLast?_reverse] at h
  have := List.head?_dropWhile_not isBlank ts.reverse
  rw [h] at this
  simpa using this

/-- The content of a heading ends before a blank, or with the text, or there is none. -/
theorem headingContent_append (ts : List Char) : ∃ tail, ts = headingContent ts ++ tail ∧
    (headingContent ts ≠ [] → ∀ ch, tail.head? = some ch → isBlank ch = true) := by
  obtain ⟨hashes, hhashes, -⟩ := trimRightBy_append (· == '#') ts
  unfold headingContent
  dsimp only
  generalize trimRightBy (· == '#') ts = opened at hhashes
  split
  · next hindent =>
    obtain ⟨tail, htail, hblank⟩ := trimRight_append opened
    refine ⟨tail ++ hashes, by rw [← List.append_assoc, ← htail]; exact hhashes, fun hne ch hch => ?_⟩
    cases tail with
    | cons d tail =>
      simp only [List.cons_append, List.head?_cons, Option.some.injEq] at hch
      exact hch ▸ hblank d (by simp)
    | nil =>
      -- Without a blank to drop the content would end in one.
      rw [List.append_nil] at htail
      obtain ⟨d, hd⟩ := List.getLast?_isSome.mpr hne |> Option.isSome_iff_exists.mp
      have hlast := getLast?_trimRight hd
      rw [← htail] at hd
      rw [hd, Option.all_some] at hindent
      rw [isBlank_of_isIndent hindent] at hlast
      cases hlast
  · exact ⟨[], by simp, fun _ ch hch => by simp at hch⟩

theorem inlineNodes_self (math : Bool) (scope : Scope) (c : Cursor) :
    inlineNodes math scope c c = .ok ([], c) := by
  simp [inlineNodes, readInline, inlineRound, textBetween, bind, Except.bind, pure, Except.pure]

/-- Content that is not empty ends at a settled place if a blank follows it, or nothing but blanks
is left on the line. -/
theorem settled_of_blank {start stop d : Cursor} {content tail : List Char}
    (hcontent : start.Path content stop) (htail : stop.Path tail d)
    (hblank : content ≠ [] → ∀ ch, tail.head? = some ch → isBlank ch = true)
    (hd : d.isLineBlank = true) : start.offset < stop.offset → stop.Settled := by
  intro hlt ch hch
  have hne : content ≠ [] := hcontent.ne_nil hlt
  rw [htail.rest] at hch
  cases tail with
  | nil => exact settled_of_isLineBlank hd ch hch
  | cons d tail =>
    simp only [List.cons_append, List.head?_cons, Option.some.injEq] at hch
    exact isAsciiPunctuation_of_isBlank (hblank hne ch (by simp [hch]))

theorem reaches_headingStart (depth : Nat) (c : Cursor) : c.Reaches (headingStart depth c) :=
  (reaches_drop c depth).trans (path_skipWhile _ isIndent).reaches

/-- The content of a heading ends before the blanks at the end of its line. -/
theorem headingStop_of_le {depth : Nat} (h : (headingStart depth c).offset ≤ c.trimmedLineEnd.offset) :
    (headingStart depth c).Reaches (headingStop depth c) ∧
      ((headingStart depth c).offset < (headingStop depth c).offset → (headingStop depth c).Settled) ∧
      (headingStop depth c).Reaches c.trimmedLineEnd := by
  obtain ⟨t, ht⟩ := (reaches_headingStart depth c).of_le (reaches_trimmedLineEnd c) h
  obtain ⟨tail, htail, hblank⟩ := headingContent_append t
  rw [headingStop]
  rw [ht.upTo]
  rw [htail] at ht
  obtain ⟨h₁, h₂⟩ := ht.at_length
  exact ⟨h₁.reaches, settled_of_blank h₁ h₂ hblank (isLineBlank_trimmedLineEnd c), h₂.reaches⟩

/-- A heading whose hashes and blanks are the whole line has no content. -/
theorem headingStop_of_lt {depth : Nat} (h : c.trimmedLineEnd.offset < (headingStart depth c).offset) :
    headingStop depth c = headingStart depth c := by
  have hnil : (headingStart depth c).upTo c.trimmedLineEnd.offset = [] := by
    rw [upTo, Nat.sub_eq_zero_of_le (by omega), takeBytes_zero]
  have hcontent : headingContent ([] : List Char) = [] := by decide
  rw [headingStop]
  rw [hnil, hcontent, List.length_nil, drop_zero]

theorem readHeading_ok {math : Bool} {depth : Nat} {n : Node} {next : Cursor}
    (h : readHeading math depth c = .ok (n, next)) (hc : c.On cs) (hne : c.rest ≠ []) :
    TakesLines cs c n next := by
  have hend := reaches_trimmedLineEnd c
  have hstart := reaches_headingStart depth c
  unfold readHeading at h
  obtain ⟨⟨nodes, stop'⟩, hnodes, h⟩ := ok_of_bind h
  simp only [pure, Except.pure, Except.ok.injEq, Prod.mk.injEq] at h
  obtain ⟨rfl, rfl⟩ := h
  refine .of_trimmedLineEnd hne rfl ?_
  by_cases hle : (headingStart depth c).offset ≤ c.trimmedLineEnd.offset
  · obtain ⟨hstop, hset, hreach⟩ := headingStop_of_le hle
    obtain ⟨htiled, hplaced, hmoves⟩ := inlineNodes_ok hnodes (hc.reaches hstart) hstop hset
    obtain rfl : stop' = headingStop depth c := by
      rcases hmoves with heq | ⟨hne, -⟩
      · exact heq
      · exact absurd rfl hne
    exact placed_branch hc hend (.heading (htiled.laid.widen hstart hreach)) hplaced
  · rw [headingStop_of_lt (by omega), inlineNodes_self] at hnodes
    simp only [Except.ok.injEq, Prod.mk.injEq] at hnodes
    obtain ⟨rfl, rfl⟩ := hnodes
    obtain ⟨u, hu⟩ := hend
    exact placed_branch hc hu.reaches (.heading (.nil hu (by simp))) (by simp [preorderAll])

/-! ## Expressions and paragraphs -/

theorem readFlowExpression?_ok {n : Node} {next : Cursor}
    (h : readFlowExpression? c = .ok (some (n, next))) (hc : c.On cs) (hne : c.rest ≠ []) :
    TakesLines cs c n next := by
  unfold readFlowExpression? at h
  split at h
  · next hopen =>
    obtain ⟨rest, hrest⟩ := List.head?_eq_some_iff.mp (beq_iff_eq.mp hopen)
    obtain ⟨close, hclose, h⟩ := ok_of_bind h
    obtain ⟨body, hbody, hend, hwhole⟩ := Script.closingBrace_body hclose hrest
    dsimp only at h
    split at h
    · next hblank =>
      simp only [pure, Except.pure, Except.ok.injEq, Option.some.injEq, Prod.mk.injEq] at h
      obtain ⟨rfl, rfl⟩ := h
      refine .of_isLineBlank hne hwhole.reaches rfl hblank ?_
      exact placed_leaf hc hwhole.reaches (.blockExpression (path_cons hrest) hbody.reaches hend)
    · cases h
  · cases h

theorem readParagraph_ok {math : Bool} {container : Option Tag} {n : Node} {next : Cursor}
    (h : readParagraph math container c = .ok (n, next)) (hc : c.On cs) (hne : c.rest ≠ []) :
    TakesLines cs c n next := by
  obtain ⟨hreach, hblank⟩ := paragraphEnd_ok math container c
  unfold readParagraph at h
  obtain ⟨⟨nodes, stop⟩, hnodes, h⟩ := ok_of_bind h
  simp only [pure, Except.pure, Except.ok.injEq, Prod.mk.injEq] at h
  obtain ⟨rfl, rfl⟩ := h
  obtain ⟨htiled, hplaced, hmoves⟩ :=
    inlineNodes_ok hnodes hc hreach fun _ => settled_of_isLineBlank hblank
  have hend : stop.isLineBlank = true := by
    rcases hmoves with rfl | ⟨-, hend⟩
    · exact hblank
    · exact hend
  have hstop := htiled.laid.reaches
  exact .of_isLineBlank hne hstop rfl hend (placed_branch hc hstop (.paragraph htiled) hplaced)

end Mdx

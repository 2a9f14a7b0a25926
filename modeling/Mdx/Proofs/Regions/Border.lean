/-
Where a region of code meets another region. The two may touch, but not behind a
name: a block of module code starts with its line and stops where one starts, the
inside of an empty expression stands between braces, and what ends it closes a
comment or is a space. So behind an identifier character of one of the regions
the other one does not go on (`code_behind_char`, `modules_behind_char`).

Embedded code starts and ends with brackets or blanks. So it does not stop between
two identifier characters either, where prose is beside it, and neither does module
code (`contains_code_iff`, `contains_modules_iff`).
-/
import Mdx.Proofs.Regions.Modules
import Mdx.Proofs.Script.Run

namespace Mdx

open Cursor Script

variable {cs : List Char} {root m n : Node} {s : Span} {c x y z next : Cursor} {ch ch' : Char}

/-! ## The character before a place -/

/-- What is read up to a place ends with the character before it. -/
theorem getLast?_of_char {t : List Char} (hc : c.On cs) (ht : c.Path t y) (hne : t ≠ []) (hx : x.On cs)
    (hp : x.Path [ch] y) : t.getLast? = some ch := by
  obtain ⟨before, hbefore⟩ := hc.reaches ht.reaches
  rw [← getLast?_of_path hc ht hne hbefore, getLast?_of_path hx hp (List.cons_ne_nil _ _) hbefore]
  rfl

/-- No place is inside a character. -/
theorem Cursor.Path.le_of_lt (hp : x.Path [ch] y) (hx : x.On cs) (hc : c.On cs) (hlt : c.offset < y.offset) :
    c.offset ≤ x.offset := by
  refine Nat.le_of_not_lt fun hbehind => ?_
  obtain ⟨t, ht⟩ := hx.reaches_of_le hc (Nat.le_of_lt hbehind)
  have hstop := (ht.head_mem hp.rest hbehind).2
  have hoffset : y.offset = x.offset + ch.utf8Size := hp.offset
  omega

theorem Cursor.Path.ge_of_gt (hp : x.Path [ch] y) (hx : x.On cs) (hc : c.On cs) (hlt : x.offset < c.offset) :
    y.offset ≤ c.offset :=
  Nat.le_of_not_lt fun hbefore => Nat.not_le_of_lt hlt (hp.le_of_lt hx hc hbefore)

/-- No identifier character ends a line. -/
theorem ne_newline_of_isIdentifierChar (h : isIdentifierChar ch = true) : ch ≠ '\n' := by
  rintro rfl
  exact absurd h (by decide)

/-- Behind an identifier character no line starts. -/
theorem Cursor.IsLine.offset_ne (hline : c.IsLine cs) (hx : x.On cs) (hp : x.Path [ch] y)
    (hch : isIdentifierChar ch = true) : c.offset ≠ y.offset := by
  intro heq
  rcases hline.start with hzero | hfeed
  · have := hp.lt (List.cons_ne_nil _ _)
    omega
  · rw [heq, precededBy_of_path hx (show x.Path ([] ++ [_]) _ from hp) (by decide), beq_iff_eq] at hfeed
    exact ne_newline_of_isIdentifierChar hch hfeed

namespace Script

/-- Trivia ends in no identifier character, but for a line comment. -/
theorem char_of_trivia {first last : Char} {rest : List Char} (htrivia : (firstToken first rest).kind.isTrivia = true)
    (hline : (firstToken first rest).kind ≠ .lineComment)
    (hlast : (firstToken first rest).text.getLast? = some last) : isIdentifierChar last = false := by
  revert htrivia hline hlast
  unfold firstToken
  split
  · next hbracket =>
    rintro - - hlast
    cases hlast
    exact isIdentifierChar_of_bracket? (by simp [hbracket])
  · next kind _ hquote =>
    intro htrivia
    have hstring := quote?_isString hquote
    rcases quotedToken_kind kind first rest with hkind | hkind <;> rw [hkind] at htrivia
    · revert hstring htrivia
      cases kind <;> simp [TokenKind.isString, TokenKind.isTrivia]
    · cases htrivia
  · split
    · unfold slashToken
      split
      · exact fun _ hline => absurd rfl hline
      · split
        · next hbody =>
          intro _ _ hlast
          rw [List.getLast?_cons_cons, List.getLast?_cons, splitComment?_getLast? hbody] at hlast
          cases hlast
          decide
        · exact fun htrivia => Bool.noConfusion htrivia
      · exact fun htrivia => Bool.noConfusion htrivia
    · split
      · next hspace =>
        intro _ _ hlast
        rcases List.mem_cons.mp (List.mem_of_getLast? hlast) with rfl | hmem
        · exact isIdentifierChar_of_isSpace hspace
        · exact isIdentifierChar_of_isSpace (forall_mem_takeWhile last hmem)
      · exact fun htrivia => Bool.noConfusion htrivia

/-- The inside of an empty expression ends in no identifier character. -/
theorem Braced.char_of_body {body : List Char} (h : Braced ('\x7b' :: body ++ ['\x7d']) true) {last : Char}
    (hlast : body.getLast? = some last) : isIdentifierChar last = false := by
  obtain ⟨htrivia, hline⟩ := h.tokens_body
  obtain hnil | ⟨front, t, hsplit⟩ := List.eq_nil_or_concat (tokenize body)
  · rw [← tokenize_flatMap_text body, hnil] at hlast
    cases hlast
  · rw [List.concat_eq_append] at hsplit
    have hmem : t ∈ tokenize body := by simp [hsplit]
    obtain ⟨first, rest, hfirst⟩ := exists_firstToken_of_mem hmem
    obtain ⟨ending, hending⟩ :=
      Option.isSome_iff_exists.mp (List.getLast?_isSome.mpr (text_ne_nil_of_mem_tokenize hmem))
    rw [← tokenize_flatMap_text body, hsplit, List.flatMap_append, List.flatMap_singleton, List.getLast?_append,
      hending, Option.some_or, Option.some.injEq] at hlast
    have hkind : (firstToken first rest).kind.isTrivia = true := hfirst ▸ htrivia t hmem
    exact char_of_trivia hkind (hfirst ▸ hline t (by simp [hsplit])) (hfirst ▸ hlast ▸ hending)

end Script

/-! ## Module code beside embedded code -/

/-- The first mark of an element starts where the element does. -/
theorem exists_elementMark (s : Span) (content : Option Span) :
    ∃ k ∈ elementMarks s content, k.span.start = s.start := by
  cases content <;> exact ⟨_, List.mem_cons_self, rfl⟩

/-- A node that marks code starts with a bracket, which it marks as code. -/
theorem starts_of_code (hwritten : IsWritten cs m) (hs : ⟨.code, s⟩ ∈ m.marks) :
    ∃ t bracket, m.span = some t ∧ ShowsAt cs t.start bracket ∧ ∃ k ∈ m.marks, k.span.start = t.start := by
  have angle : ∀ {tag : Tag} {a b : Cursor}, a.On cs → tag.Stands a b → ShowsAt cs a.offset '<' := by
    intro tag a b ha htag
    obtain ⟨rest, hrest⟩ := List.head?_eq_some_iff.mp htag.angle
    exact ⟨charAt?_offset ha hrest, by decide⟩
  rcases code_mark_cases hs with ⟨e, he⟩ | ⟨e, he⟩
  · cases hwritten.element e he with
    | @single kind tag a b ha htag _ =>
      refine ⟨_, '<', rfl, angle ha htag, ?_⟩
      rw [Node.leaf, marks_element _ _ (show kind.element? = some e from he)]
      exact exists_elementMark _ _
    | @pair kind tag closing a x y b nodes ha htag =>
      refine ⟨_, '<', rfl, angle ha htag, ?_⟩
      rw [Node.branch, marks_element _ _ (show kind.element? = some e from he)]
      exact exists_elementMark _ _
  · cases hwritten.expression e he with
    | @braces kind a x y b body ha hopen _ _ heq _ =>
      refine ⟨_, '\x7b', rfl, ⟨charAt?_offset ha hopen.rest, by decide⟩, ?_⟩
      rw [Node.leaf, marks_expression _ _ (show kind.expression? = some e from he), expressionMarks]
      split
      · exact ⟨_, List.mem_cons_of_mem _ List.mem_cons_self, rfl⟩
      · exact ⟨_, List.mem_cons_self, rfl⟩

/-- What is below a node is below one of its children. -/
theorem exists_child {nodes : List Node} (h : m ∈ preorderAll nodes) : ∃ n ∈ nodes, m ∈ n.preorder := by
  induction nodes with
  | nil => cases h
  | cons n nodes ih =>
    rw [preorderAll, List.mem_append] at h
    rcases h with h | h
    · exact ⟨n, List.mem_cons_self, h⟩
    · obtain ⟨n', hn', hm⟩ := ih h
      exact ⟨n', List.mem_cons_of_mem _ hn', hm⟩

/-- Embedded code is below a child of the root that is no module block. -/
theorem exists_child_of_code (hroot : Rooted cs root) (h : IsBlock cs root c n next) (hm : m ∈ root.preorder)
    (hs : ⟨.code, s⟩ ∈ m.marks) : ∃ r ∈ root.children, r ≠ n ∧ m ∈ r.preorder := by
  have hkind : ∀ {d : Node}, d.kind.element? = none → d.kind.expression? = none → m ≠ d := by
    rintro d helement hexpression rfl
    rcases code_mark_cases hs with ⟨e, he⟩ | ⟨e, he⟩
    · cases helement.symm.trans he
    · cases hexpression.symm.trans he
  obtain ⟨kind, span, nodes⟩ := root
  obtain rfl : kind = .root := hroot.kind
  rw [Node.preorder, List.mem_cons] at hm
  obtain ⟨r, hr, hmr⟩ := exists_child (hm.resolve_left (hkind rfl rfl))
  refine ⟨r, hr, ?_, hmr⟩
  rintro rfl
  -- Below a module block there are only statements.
  obtain ⟨t, ht⟩ := moduleStatements_of_readModule h.read h.line h.keyword
  have hblock := kind_readModule h.read
  have hchildren := children_of_readModule h.read
  obtain ⟨kind, span, statements⟩ := r
  obtain rfl : kind = .moduleBlock := hblock
  rw [Node.preorder, List.mem_cons] at hmr
  have hstatement := (ht.starts m (mem_of_mem_preorderAll hchildren (hmr.resolve_left (hkind rfl rfl)))).1
  exact hkind (d := m) (by rw [hstatement]; rfl) (by rw [hstatement]; rfl) rfl

/-- Embedded code that goes on behind the start of a block stands behind its lines. -/
theorem IsBlock.le_of_code (hroot : Rooted cs root) (h : IsBlock cs root c n next) (hm : m ∈ root.preorder)
    (hwritten : IsWritten cs m) (hs : ⟨.code, s⟩ ∈ m.marks) (hlt : c.offset < s.stop) : next.offset ≤ s.start := by
  obtain ⟨b, gap, hcb, hspan, hgap, hblank⟩ := (readModule_ok h.read h.line.on h.line.nonempty).ends
  obtain ⟨t, bracket, ht, hshows, k, hk, hstart⟩ := starts_of_code hwritten hs
  obtain ⟨r, hr, hne, hmr⟩ := exists_child_of_code hroot h hm hs
  obtain ⟨u, hu, -⟩ := hroot.laid.holds hr
  have hmarks : ∀ {d : Node}, d ∈ root.preorder → ∀ v, d.span = some v → m ∈ d.preorder →
      ∀ k ∈ m.marks, v.start ≤ k.span.start ∧ k.span.stop ≤ v.stop := fun hd v hv hmd k hk =>
    (marked_preorder _ (fun x hx => hroot.placed x (root.mem_preorder_trans hd hx)) v hv).within k
      (List.mem_flatMap.mpr ⟨m, hmd, hk⟩)
  have hrm := hmarks (Node.mem_preorder_of_child hr) u hu hmr
  have hordered : root.children.Pairwise fun x y => x.Precedes y ∨ y.Precedes x :=
    hroot.laid.pairwise.imp Or.inl
  have : Std.Symm fun x y : Node => x.Precedes y ∨ y.Precedes x := ⟨fun _ _ hxy => hxy.symm⟩
  rcases hordered.forall hr h.mem hne with hle | hle
  · have hbefore : u.stop ≤ c.offset := hle _ _ hu hspan
    have hstop : s.stop ≤ u.stop := (hrm _ hs).2
    omega
  · have hbehind : b.offset ≤ u.start := hle _ _ hspan hu
    have hfirst : u.start ≤ k.span.start := (hrm k hk).1
    obtain ⟨x, hx, hoffset, rest, hrest⟩ := on_of_charAt? hshows.stands
    have hbx := (h.line.on.reaches hcb).reaches_of_le hx (by omega)
    have hnext := le_of_blank_gap hgap hblank hbx hrest hshows.shows
    have hmark : t.start ≤ s.start := (hmarks hm t ht m.mem_preorder_self _ hs).1
    omega

/-! ## The ends of embedded code -/

/-- Neither the first character nor the last one is an identifier character. -/
structure Edged (t : List Char) : Prop where
  first : ∀ ch, t.head? = some ch → isIdentifierChar ch = false
  last : ∀ ch, t.getLast? = some ch → isIdentifierChar ch = false

theorem Edged.append {t u : List Char} (ht : Edged t) (hu : Edged u) : Edged (t ++ u) where
  first ch hch := by
    rw [List.head?_append, Option.or_eq_some_iff] at hch
    exact hch.elim (ht.first ch) fun hch => hu.first ch hch.2
  last ch hch := by
    rw [List.getLast?_append, Option.or_eq_some_iff] at hch
    exact hch.elim (hu.last ch) fun hch => ht.last ch hch.2

theorem edged_blanks {t : List Char} (h : ∀ ch ∈ t, isBlank ch = true) : Edged t where
  first ch hch := isIdentifierChar_of_isBlank (h ch (List.mem_of_head? hch))
  last ch hch := isIdentifierChar_of_isBlank (h ch (List.mem_of_getLast? hch))

theorem edged_singleton (h : isIdentifierChar ch = false) : Edged [ch] where
  first ch' hch' := by cases hch'; exact h
  last ch' hch' := by cases hch'; exact h

/-- Between two characters that are none of an identifier may stand anything. -/
theorem edged_between (h : isIdentifierChar ch = false) (h' : isIdentifierChar ch' = false)
    (t : List Char) : Edged (ch :: t ++ [ch']) where
  first last hlast := by cases hlast; exact h
  last last hlast := by
    rw [List.getLast?_concat] at hlast
    cases hlast
    exact h'

theorem Tag.Stands.edged {tag : Tag} {a b : Cursor} (h : tag.Stands a b) : ∃ t, a.Path t b ∧ Edged t := by
  obtain ⟨rest, hrest⟩ := List.head?_eq_some_iff.mp h.angle
  obtain ⟨d, ⟨t, ht⟩, hclose⟩ := Tag.closes_read h.read
  cases t with
  | nil =>
    obtain rfl : a = d := ht.drop_length
    have := hclose.rest
    rw [hrest] at this
    cases this
  | cons first t =>
    have hfirst := ht.rest
    rw [hrest] at hfirst
    cases hfirst
    exact ⟨_, ht.trans hclose, edged_between (by decide) (by decide) t⟩

/-- A span of embedded code starts and ends with a bracket or a blank. -/
theorem IsWritten.edged_code (h : IsWritten cs n) (hs : ⟨.code, s⟩ ∈ n.marks) : Edged (slice cs s) := by
  rcases code_mark_cases hs with ⟨e, he⟩ | ⟨e, he⟩
  · exact (h.element e he).text_code he hs (fun _ => edged_blanks) (fun _ _ => Edged.append)
      fun _ _ _ htag _ => htag.edged
  · exact (h.expression e he).text_code he hs (edged_singleton (by decide)) (edged_singleton (by decide))
      fun body _ => edged_between (by decide) (by decide) body

/-- Such a span does not stop between two identifier characters, and does not start there. -/
theorem Edged.contains_iff (h : Edged (slice cs s)) (hs : s.InText cs) (hx : x.On cs) (hp : x.Path [ch] y)
    (hq : y.Path [ch'] z) (hch : isIdentifierChar ch = true) (hch' : isIdentifierChar ch' = true) :
    s.contains x.offset = true ↔ s.contains y.offset = true := by
  obtain ⟨a, b, t, ha, ht, rfl⟩ := hs.path
  rw [ha.slice ht] at h
  have hb := ha.reaches ht.reaches
  have hy := hx.reaches hp.reaches
  have hlt := hp.lt (List.cons_ne_nil _ _)
  simp only [Span.contains_iff, spanTo]
  constructor
  · rintro ⟨hlo, hhi⟩
    have hge := hp.ge_of_gt hx hb hhi
    refine ⟨by omega, Nat.lt_of_le_of_ne hge fun heq => ?_⟩
    obtain rfl : y = b := Reaches.eq_of_offset_eq hy hb heq
    exact Bool.false_ne_true ((h.last ch (getLast?_of_char ha ht (ht.ne_nil (by omega)) hx hp)).symm.trans hch)
  · rintro ⟨hlo, hhi⟩
    refine ⟨Nat.le_of_not_lt fun hbefore => ?_, by omega⟩
    have hge := hp.ge_of_gt hx ha hbefore
    obtain rfl : y = a := Reaches.eq_of_offset_eq hy ha (by omega)
    obtain ⟨first, t, rfl⟩ := List.exists_cons_of_ne_nil (ht.ne_nil hhi)
    obtain rfl : ch' = first := (List.cons.inj (hq.rest.symm.trans ht.rest)).1
    exact Bool.false_ne_true ((h.first ch' rfl).symm.trans hch')

section Parsed

variable {options : ParseOptions}

/-- A byte of the inside of an empty expression is module code. -/
theorem contains_modules_of_body (h : parse options cs = .ok root) (hm : m ∈ root.preorder) {e : Expression}
    (he : m.kind.expression? = some e) (hempty : e.isEmpty = true) {o : Nat} (ho : e.body.contains o = true) :
    (Regions.ofTree root).modules.contains o = true :=
  (contains_modules_ofTree (parse_ok h).placed).mpr
    ⟨m, hm, e.body, body_mark (span_ne_none_of_placed (parse_ok h).placed m hm) he hempty, ho⟩

/-- Behind an identifier character of module code no embedded code goes on. -/
theorem code_behind_char (h : parse options cs = .ok root) (hx : x.On cs) (hp : x.Path [ch] y)
    (hch : isIdentifierChar ch = true) (hmodules : (Regions.ofTree root).modules.contains x.offset = true) :
    (Regions.ofTree root).code.contains y.offset = false := by
  refine Bool.eq_false_iff.mpr fun hcode => ?_
  have hroot := parse_ok h
  have hy := hx.reaches hp.reaches
  have hlt := hp.lt (List.cons_ne_nil _ _)
  obtain ⟨u, hu, hux⟩ := exists_isModules h hmodules
  cases hu with
  | @block c next n hblock =>
    obtain ⟨m, hm, s, hs, hsy⟩ := (contains_code_ofTree hroot.placed).mp hcode
    obtain ⟨text, htext⟩ := hblock.text
    have hnext := hblock.line.on.reaches htext.path.reaches
    simp only [Span.contains_iff, spanTo] at hsy hux
    -- The code starts behind the lines of the block, so the character is the last one of the block.
    have hle := hblock.le_of_code hroot hm (isWritten_of_parse h m hm) hs (by omega)
    have hge := hp.ge_of_gt hx hnext hux.2
    obtain rfl : y = next := Reaches.eq_of_offset_eq hy hnext (by omega)
    rcases htext.ends with hfeed | hend
    · rw [getLast?_of_char hblock.line.on htext.path (htext.path.ne_nil (by omega)) hx hp] at hfeed
      exact ne_newline_of_isIdentifierChar hch (Option.some.inj hfeed)
    · have hbounded := ((parts_code h).inText s ⟨m, hm, hs⟩).bounded
      omega
  | @body m e hm he hempty =>
    have hbody : e.body.contains y.offset = false := Bool.eq_false_iff.mpr fun ho => by
      rw [(sound_of_parse h).modules_code _ (contains_modules_of_body h hm he hempty ho)] at hcode
      cases hcode
    cases (isWritten_of_parse h m hm).expression e he with
    | @braces kind a x' y' b body ha hopen hpath _ heq hbraced =>
      rw [hempty] at hbraced
      rw [← Bool.not_eq_true] at hbody
      simp only [heq, Span.contains_iff, spanTo] at hbody hux
      have hx' := ha.reaches hopen.reaches
      have hge := hp.ge_of_gt hx (hx'.reaches hpath.reaches) hux.2
      obtain rfl : y = y' := Reaches.eq_of_offset_eq hy (hx'.reaches hpath.reaches) (by omega)
      have hlast := getLast?_of_char hx' hpath (hpath.ne_nil (by omega)) hx hp
      rw [hbraced.char_of_body hlast] at hch
      cases hch

/-- Before module code goes on stands no identifier character of another region. -/
theorem modules_before_char (h : parse options cs = .ok root) (hx : x.On cs) (hp : x.Path [ch] y)
    (hch : isIdentifierChar ch = true) (hmodules : (Regions.ofTree root).modules.contains y.offset = true) :
    (Regions.ofTree root).modules.contains x.offset = true := by
  have hlt := hp.lt (List.cons_ne_nil _ _)
  obtain ⟨u, hu, huy⟩ := exists_isModules h hmodules
  cases hu with
  | @block c next n hblock =>
    simp only [Span.contains_iff, spanTo] at huy
    have hne := hblock.line.offset_ne hx hp hch
    have hle := hp.le_of_lt hx hblock.line.on (by omega)
    exact hblock.contains_modules h ⟨charAt?_offset hx hp.rest, isBlank_of_isIdentifierChar hch⟩ hle (by omega)
  | @body m e hm he hempty =>
    cases (isWritten_of_parse h m hm).expression e he with
    | @braces kind a x' y' b body ha hopen _ _ heq _ =>
      have hbody := contains_modules_of_body (o := x.offset) h hm he hempty
      simp only [heq, Span.contains_iff, spanTo] at hbody huy
      have hx' := ha.reaches hopen.reaches
      by_cases hstart : x'.offset < y.offset
      · have hle := hp.le_of_lt hx hx' hstart
        exact hbody (by omega)
      · -- The character is the open brace.
        obtain rfl : x' = y := Reaches.eq_of_offset_eq hx' (hx.reaches hp.reaches) (by omega)
        have hbrace := getLast?_of_char ha hopen (List.cons_ne_nil _ _) hx hp
        cases hbrace
        exact absurd hch (by decide)

/-- Behind an identifier character of embedded code no module code goes on. -/
theorem modules_behind_char (h : parse options cs = .ok root) (hx : x.On cs) (hp : x.Path [ch] y)
    (hch : isIdentifierChar ch = true) (hcode : (Regions.ofTree root).code.contains x.offset = true) :
    (Regions.ofTree root).modules.contains y.offset = false := by
  refine Bool.eq_false_iff.mpr fun hmodules => ?_
  rw [(sound_of_parse h).modules_code _ (modules_before_char h hx hp hch hmodules)] at hcode
  cases hcode

/-- Behind module code goes on no identifier character of another region. -/
theorem modules_of_chars (h : parse options cs = .ok root) (hx : x.On cs) (hp : x.Path [ch] y) (hq : y.Path [ch'] z)
    (hch : isIdentifierChar ch = true) (hch' : isIdentifierChar ch' = true)
    (hmodules : (Regions.ofTree root).modules.contains x.offset = true) :
    (Regions.ofTree root).modules.contains y.offset = true := by
  have hy := hx.reaches hp.reaches
  have hlt := hp.lt (List.cons_ne_nil _ _)
  have hshows : ShowsAt cs y.offset ch' := ⟨charAt?_offset hy hq.rest, isBlank_of_isIdentifierChar hch'⟩
  obtain ⟨u, hu, hux⟩ := exists_isModules h hmodules
  cases hu with
  | @block c next n hblock =>
    obtain ⟨text, htext⟩ := hblock.text
    have hnext := hblock.line.on.reaches htext.path.reaches
    simp only [Span.contains_iff, spanTo] at hux
    by_cases hin : y.offset < next.offset
    · exact hblock.contains_modules h hshows (by omega) hin
    · -- The character would be the last one of the block, which is a line feed or the last of the text.
      have hge := hp.ge_of_gt hx hnext hux.2
      obtain rfl : y = next := Reaches.eq_of_offset_eq hy hnext (by omega)
      rcases htext.ends with hfeed | hend
      · rw [getLast?_of_char hblock.line.on htext.path (htext.path.ne_nil (by omega)) hx hp] at hfeed
        exact absurd (Option.some.inj hfeed) (ne_newline_of_isIdentifierChar hch)
      · have := hshows.lt
        omega
  | @body m e hm he hempty =>
    have hbody := contains_modules_of_body (o := y.offset) h hm he hempty
    cases (isWritten_of_parse h m hm).expression e he with
    | @braces kind a x' y' b body ha hopen hpath _ heq hbraced =>
      rw [hempty] at hbraced
      simp only [heq, Span.contains_iff, spanTo] at hbody hux
      have hx' := ha.reaches hopen.reaches
      have hge := hp.ge_of_gt hx (hx'.reaches hpath.reaches) hux.2
      by_cases hin : y.offset < y'.offset
      · exact hbody (by omega)
      · obtain rfl : y = y' := Reaches.eq_of_offset_eq hy (hx'.reaches hpath.reaches) (by omega)
        have hlast := getLast?_of_char hx' hpath (hpath.ne_nil (by omega)) hx hp
        rw [hbraced.char_of_body hlast] at hch
        cases hch

/-- Module code does not stop between two identifier characters, and does not start there. -/
theorem contains_modules_iff (h : parse options cs = .ok root) (hx : x.On cs) (hp : x.Path [ch] y)
    (hq : y.Path [ch'] z) (hch : isIdentifierChar ch = true) (hch' : isIdentifierChar ch' = true) :
    (Regions.ofTree root).modules.contains x.offset = true ↔ (Regions.ofTree root).modules.contains y.offset = true :=
  ⟨modules_of_chars h hx hp hq hch hch', modules_before_char h hx hp hch⟩

/-- Embedded code does not stop between two identifier characters, and does not start there. -/
theorem contains_code_iff (h : parse options cs = .ok root) (hx : x.On cs) (hp : x.Path [ch] y)
    (hq : y.Path [ch'] z) (hch : isIdentifierChar ch = true) (hch' : isIdentifierChar ch' = true) :
    (Regions.ofTree root).code.contains x.offset = true ↔ (Regions.ofTree root).code.contains y.offset = true := by
  rw [contains_code_ofTree (parse_ok h).placed, contains_code_ofTree (parse_ok h).placed]
  refine exists_congr fun m => and_congr_right fun hm => exists_congr fun s => and_congr_right fun hs => ?_
  exact ((isWritten_of_parse h m hm).edged_code hs).contains_iff ((parts_code h).inText s ⟨m, hm, hs⟩) hx hp hq hch hch'

end Parsed

end Mdx

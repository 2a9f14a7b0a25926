/-
What the bindings of a text are. A reader of imports or exports passes a word, the
blanks behind it and what stands before a name, and all this is a path; so a
bound name stands at its span, and behind the start of its statement
(`Imports`, `Exports`, `mem_bindings`).

An import's statement goes on to the end of its module, so it holds the name. An
export's statement ends with the line that it starts on, and holds the name
exactly if no line feed stands before it (`Exports.holds_iff`).
-/
import Mdx.Proofs.Script.Identifier
import Mdx.Script.Binding

namespace Mdx

open Cursor

/-- The ranges of a table that are in those of another one, taken in their order: each range of the other
table takes those that come next. -/
def rangesWithin : List (Nat × Nat) → List (Nat × Nat) → Bool
  | [], ranges => ranges.isEmpty
  | o :: others, ranges => rangesWithin others (ranges.dropWhile fun r => o.1 ≤ r.1 && r.2 ≤ o.2)

/-- A code point of one table is in another one whose ranges are around those of the first. -/
theorem inRanges_mono {ranges others : List (Nat × Nat)} {n : Nat} (h : rangesWithin others ranges = true)
    (hn : inRanges ranges n = true) : inRanges others n = true := by
  induction others generalizing ranges with
  | nil =>
    rw [List.isEmpty_iff.mp h] at hn
    cases hn
  | cons o others ih =>
    rw [inRanges, ← List.takeWhile_append_dropWhile (p := fun r => o.1 ≤ r.1 && r.2 ≤ o.2) (l := ranges),
      List.any_append, Bool.or_eq_true] at hn
    rw [inRanges, List.any_cons, Bool.or_eq_true]
    refine hn.imp (fun hn => ?_) (ih h)
    obtain ⟨r, hr, hrn⟩ := List.any_eq_true.mp hn
    have hor := List.all_eq_true.mp List.all_takeWhile r hr
    simp only [Bool.and_eq_true, decide_eq_true_eq] at hor hrn ⊢
    omega

theorem isAlphabetic_of_isLetter {ch : Char} (h : isLetter ch = true) : isAlphabetic ch = true := by
  unfold isLetter hasProperty at h
  unfold isAlphabetic hasProperty
  split at h
  · next hascii => rwa [if_pos hascii]
  · next hascii =>
    rw [if_neg hascii]
    exact inRanges_mono (by decide +kernel) h

namespace Script

/-! ## Names -/

theorem isIdentifierStart_of_isNameStart {ch : Char} (h : isNameStart ch = true) : isIdentifierStart ch = true := by
  simp only [isNameStart, isIdentifierStart, Bool.or_eq_true] at h ⊢
  exact h.imp_left (Or.imp_left isAlphabetic_of_isLetter)

theorem isIdentifierChar_of_isNameChar {ch : Char} (h : isNameChar ch = true) : isIdentifierChar ch = true := by
  simp only [isNameChar, isIdentifierChar, isAlphanumeric, Bool.or_eq_true] at h ⊢
  rcases h with ((h | h) | h) | h
  · simp [isAlphabetic_of_isLetter h]
  all_goals simp [h]

theorem isNameChar_of_isNameStart {ch : Char} (h : isNameStart ch = true) : isNameChar ch = true := by
  simp only [isNameStart, isNameChar, Bool.or_eq_true] at h ⊢
  rcases h with (h | h) | h <;> simp [h]

theorem isNameStart_of_isBlank {ch : Char} (h : isBlank ch = true) : isNameStart ch = false := by
  cases hstart : isNameStart ch with
  | false => rfl
  | true =>
    have hchar := isIdentifierChar_of_isNameChar (isNameChar_of_isNameStart hstart)
    rw [isIdentifierChar_of_isBlank h] at hchar
    cases hchar

theorem isValidName_iff {name : List Char} :
    isValidName name = true ↔ name.head?.any isNameStart = true ∧ ∀ ch ∈ name, isNameChar ch = true := by
  cases name with
  | nil => simp [isValidName]
  | cons ch name =>
    rw [isValidName, Bool.and_eq_true, List.all_eq_true, List.forall_mem_cons]
    constructor
    · rintro ⟨hstart, hname⟩
      exact ⟨hstart, isNameChar_of_isNameStart hstart, hname⟩
    · rintro ⟨hstart, -, hname⟩
      exact ⟨hstart, hname⟩

theorem isValidName_takeWhile {ch : Char} {cs : List Char} (h : isNameStart ch = true) :
    isValidName (ch :: cs.takeWhile isNameChar) = true := by
  rw [isValidName, h, Bool.true_and]
  exact List.all_takeWhile

/-- The last name of a text, the text before it, and whether it is the only one. -/
theorem getLast?_namesIn {offset : Nat} {cs : List Char} {name : String} {span : Span}
    (h : (namesIn offset cs).getLast? = some (name, span)) : ∃ front back,
      cs = front ++ name.toList ++ back ∧ isValidName name.toList = true ∧
        span = ⟨offset + byteLength front, offset + byteLength front + byteLength name.toList⟩ ∧
        ((namesIn offset cs).length == 1) = front.all (!isNameStart ·) := by
  fun_induction namesIn offset cs with
  | case1 => cases h
  | case2 offset ch cs hstart first stop ih =>
    cases hlater : namesIn stop (cs.dropWhile isNameChar) with
    | nil =>
      rw [hlater] at h
      cases h
      rw [String.toList_ofList]
      refine ⟨[], cs.dropWhile isNameChar, ?_, isValidName_takeWhile hstart, rfl, rfl⟩
      rw [List.nil_append, List.cons_append, List.takeWhile_append_dropWhile]
    | cons second later =>
      rw [hlater, List.getLast?_cons_cons, ← hlater] at h
      obtain ⟨front, back, hsplit, hvalid, rfl, -⟩ := ih h
      refine ⟨first ++ front, back, ?_, hvalid, ?_, ?_⟩
      · rw [List.append_assoc, List.append_assoc, ← List.append_assoc front, ← hsplit, List.cons_append,
          List.takeWhile_append_dropWhile]
      · rw [byteLength_append, ← Nat.add_assoc]
      · simp [first, hstart]
  | case3 offset ch cs hstart ih =>
    obtain ⟨front, back, rfl, hvalid, rfl, hone⟩ := ih h
    refine ⟨ch :: front, back, rfl, hvalid, ?_, ?_⟩
    · rw [byteLength_cons, ← Nat.add_assoc]
    · rw [hone, List.all_cons, Bool.eq_false_iff.mpr hstart]
      rfl

/-! ## Words and clauses -/

theorem path_of_startsWith {c : Cursor} {word : String} (h : c.startsWith word = true) :
    c.Path word.toList (c.drop word.length) := by
  obtain ⟨rest, hrest⟩ := List.isPrefixOf_iff_prefix.mp h
  have hpath := path_drop c word.length
  rwa [← hrest, ← String.length_toList, List.take_left] at hpath

/-- Behind a word that is skipped are the blanks after it. -/
theorem path_skipWord? {c start : Cursor} {word : String} (h : skipWord? word c = some start) :
    ∃ gap, c.Path (word.toList ++ gap) start ∧ gap ≠ [] ∧ ∀ ch ∈ gap, isBlank ch = true := by
  simp only [skipWord?] at h
  split at h
  · next hword =>
    obtain ⟨hstarts, hblank⟩ := Bool.and_eq_true_iff.mp hword
    cases h
    refine ⟨_, (path_of_startsWith hstarts).trans (path_skipWhile _ isBlank), ?_, forall_mem_takeWhile⟩
    cases hrest : (c.drop word.length).rest with
    | nil => simp [hrest] at hblank
    | cons ch rest =>
      rw [hrest, List.head?_cons, Option.any_some] at hblank
      rw [List.takeWhile_cons_of_pos hblank]
      exact List.cons_ne_nil _ _
  · cases h

theorem reaches_of_readModuleSource? {c next : Cursor} {source : String}
    (h : readModuleSource? c = some (source, next)) : c.Reaches next := by
  unfold readModuleSource? at h
  simp only at h
  split at h
  · cases h
  · split at h
    · cases h
      exact (path_skipWhile c isBlank).reaches.trans <| (reaches_drop _ 4).trans <|
        (path_skipWhile _ isBlank).reaches.trans <| reaches_drop _ _
    · cases h

/-- The equation that the definition has; Lean would evaluate the reader of the module for it. -/
theorem readClause?_cons (offset : Nat) (ch : Char) (cs : List Char) : readClause? offset (ch :: cs) =
    match readModuleSource? ⟨offset, ch :: cs⟩ with
    | some (source, next) => some ([], source, next)
    | none =>
      if ch == ';' || isQuote ch then none
      else (readClause? (offset + ch.utf8Size) cs).map fun (clause, r) => (ch :: clause, r) := by
  rfl

theorem path_readClause? {c next : Cursor} {clause : List Char} {source : String}
    (h : readClause? c.offset c.rest = some (clause, source, next)) :
    ∃ stop, c.Path clause stop ∧ stop.Reaches next := by
  obtain ⟨offset, cs⟩ := c
  simp only at h
  induction cs generalizing offset clause with
  | nil => cases h
  | cons ch cs ih =>
    rw [readClause?_cons] at h
    cases hmodule : readModuleSource? ⟨offset, ch :: cs⟩ with
    | some found =>
      obtain ⟨source', next'⟩ := found
      rw [hmodule] at h
      cases h
      exact ⟨_, .refl _, reaches_of_readModuleSource? hmodule⟩
    | none =>
      rw [hmodule] at h
      dsimp only at h
      split at h
      · cases h
      · obtain ⟨⟨clause', r⟩, hclause, heq⟩ := Option.map_eq_some_iff.mp h
        cases heq
        obtain ⟨stop, hstop, hnext⟩ := ih _ hclause
        exact ⟨stop, Cursor.Path.trans (t := [ch]) ⟨rfl, rfl⟩ hstop, hnext⟩

theorem splitCommas_of_notMem {cs : List Char} (h : ',' ∉ cs) : splitCommas cs = [cs] := by
  induction cs with
  | nil => rfl
  | cons ch cs ih =>
    rw [List.mem_cons, not_or] at h
    rw [splitCommas, ih h.2, if_neg (by simpa using Ne.symm h.1)]

theorem splitCommas_append {part : List Char} (h : ',' ∉ part) (cs : List Char) :
    splitCommas (part ++ ',' :: cs) = part :: splitCommas cs := by
  induction part with
  | nil => rfl
  | cons ch part ih =>
    rw [List.mem_cons, not_or] at h
    rw [List.cons_append, splitCommas, ih h.2, if_neg (by simpa using Ne.symm h.1)]

/-! ## Imports -/

/-- Before a name in the clause of an import a brace is open, and the name is the first one of its part. -/
def isBracedAlone (lead : List Char) : Bool :=
  lead.contains '\x7b' && !lead.contains '\x7d' && (lead.reverse.takeWhile (· != ',')).all (!isNameStart ·)

/-- Blanks before a clause make no difference. -/
theorem isBracedAlone_append {gap : List Char} (hgap : ∀ ch ∈ gap, isBlank ch = true) (lead : List Char) :
    isBracedAlone (gap ++ lead) = isBracedAlone lead := by
  have hnone : ∀ ch, isBlank ch = false → ch ∉ gap := fun ch hch hmem => by
    rw [hgap _ hmem] at hch
    cases hch
  have hfree : (gap.reverse.takeWhile (· != ',')).all (!isNameStart ·) = true := by
    refine List.all_eq_true.mpr fun ch hch => ?_
    have hmem := List.mem_reverse.mp ((List.takeWhile_subset _) hch)
    rw [isNameStart_of_isBlank (hgap ch hmem)]
    rfl
  have hpart : ((gap ++ lead).reverse.takeWhile (· != ',')).all (!isNameStart ·) =
      (lead.reverse.takeWhile (· != ',')).all (!isNameStart ·) := by
    rw [List.reverse_append, List.takeWhile_append]
    split
    · next hall =>
      have heq : lead.reverse.takeWhile (· != ',') = lead.reverse :=
        (List.takeWhile_prefix _).eq_of_length hall
      rw [List.all_append, hfree, Bool.and_true, heq]
    · rfl
  simp only [isBracedAlone, hpart, List.contains_eq_mem, List.mem_append, hnone '\x7b' (by decide),
    hnone '\x7d' (by decide), false_or]

/-- A text goes as far as the first such character if this is not in it. -/
theorem byteLength_le_takeWhile (ch : Char) (front back : List Char) :
    byteLength front ≤ byteLength ((front ++ back).takeWhile (· != ch)) ↔ ch ∉ front := by
  induction front with
  | nil => simp
  | cons d front ih =>
    by_cases h : d = ch
    · have := d.utf8Size_pos
      subst h
      simp
      omega
    · simp [h, Ne.symm h, ih]

/-- Whether a name is in the braces of its clause is told by the text before it. -/
theorem any_bracesOf? (lead : List Char) {name : List Char} (hclose : '\x7d' ∉ name) (offset : Nat)
    (back : List Char) :
    ((bracesOf? offset (lead ++ name ++ back)).any fun b =>
      b.start < offset + byteLength lead && offset + byteLength lead + byteLength name ≤ b.stop) =
        (lead.contains '\x7b' && !lead.contains '\x7d') := by
  have hstart := byteLength_le_takeWhile '\x7b' lead (name ++ back)
  have hstop := byteLength_le_takeWhile '\x7d' (lead ++ name) back
  rw [← List.append_assoc] at hstart
  rw [List.mem_append, or_iff_left hclose, byteLength_append] at hstop
  have hopened := not_congr hstart
  rw [Nat.not_le, Decidable.not_not] at hopened
  rw [Bool.eq_iff_iff]
  unfold bracesOf?
  split
  · simp only [Option.any_some, Bool.and_eq_true, decide_eq_true_eq, List.contains_eq_mem, Bool.not_eq_true',
      decide_eq_false_iff_not, ← hstop, ← hopened]
    omega
  · next hnone =>
    have hlead : '\x7b' ∉ lead := fun hmem => hnone (by simp [hmem])
    simp [hlead]

/-- The import at the place `c` that is read up to `next` binds the name so. -/
def Imports (c next : Cursor) (b : Binding) : Prop :=
  ∃ (source : String) (lead : List Char) (x y : Cursor), c.Path ("import".toList ++ lead) x ∧
    x.Path b.name.toList y ∧ y.Reaches next ∧ isValidName b.name.toList = true ∧
      b.span = x.spanTo y.offset ∧ b.statement = c.spanTo next.offset ∧
      b.kind = .imported source (isBracedAlone lead)

/-- The part of a clause that is left from `d` on binds the name so; `start` is the start of the clause. -/
def Binds (statement : Span) (source : String) (start d stop : Cursor) (b : Binding) : Prop :=
  ∃ (lead : List Char) (x y : Cursor), start.Path lead x ∧ d.Reaches x ∧ x.Path b.name.toList y ∧
    y.Reaches stop ∧ isValidName b.name.toList = true ∧ b.span = x.spanTo y.offset ∧
      b.statement = statement ∧ b.kind = .imported source (isBracedAlone lead)

theorem notMem_of_isValidName {ch : Char} {name : List Char} (h : isValidName name = true)
    (hch : isNameChar ch = false) : ch ∉ name := by
  intro hmem
  rw [(isValidName_iff.mp h).2 ch hmem] at hch
  cases hch

section Clause

variable {statement : Span} {source : String} {start d e stop : Cursor} {done part rest : List Char}

/-- The part of a text behind its last comma. -/
theorem takeWhile_reverse_of_part (hdone : ∀ ch, done.getLast? = some ch → ch = ',') (hpart : ',' ∉ part) :
    (done ++ part).reverse.takeWhile (· != ',') = part.reverse := by
  have hall : ∀ ch ∈ part.reverse, (ch != ',') = true := by
    intro ch hch
    rw [bne_iff_ne]
    rintro rfl
    exact hpart (List.mem_reverse.mp hch)
  rw [List.reverse_append, List.takeWhile_append_of_pos hall]
  cases hlast : done.getLast? with
  | none =>
    rw [List.getLast?_eq_none_iff.mp hlast]
    exact List.append_nil _
  | some ch =>
    obtain ⟨front, rfl⟩ := List.getLast?_eq_some_iff.mp hlast
    rw [hdone ch hlast, List.reverse_concat, List.takeWhile_cons_of_neg (by decide), List.append_nil]

/-- The last name of a part is bound. -/
theorem binds_of_part (statement : Span) (source : String) (hdone : ∀ ch, done.getLast? = some ch → ch = ',')
    (hpart : ',' ∉ part) (hd : start.Path done d) (he : d.Path part e) (rest : List Char) {name : String} {span : Span}
    (hname : (namesIn d.offset part).getLast? = some (name, span)) :
    Binds statement source start d e ⟨name, span, statement, .imported source
      ((bracesOf? start.offset (done ++ part ++ rest)).any (fun b => b.start < span.start && span.stop ≤ b.stop) &&
        (namesIn d.offset part).length == 1)⟩ := by
  obtain ⟨front, back, rfl, hvalid, rfl, hone⟩ := getLast?_namesIn hname
  rw [List.append_assoc] at he
  obtain ⟨hfront, he⟩ := he.at_length
  obtain ⟨hnamed, hback⟩ := he.at_length
  have hx := hd.trans hfront
  refine ⟨done ++ front, _, _, hx, hfront.reaches, hnamed, hback.reaches, hvalid, ?_, rfl, ?_⟩
  · rw [spanTo, hnamed.offset, hfront.offset]
  have hclose : '\x7d' ∉ name.toList := notMem_of_isValidName hvalid (by decide)
  have hbraces := any_bracesOf? (done ++ front) hclose start.offset (back ++ rest)
  have hcomma : ',' ∉ front := fun hmem => hpart (by simp [hmem])
  have hclause : done ++ front ++ name.toList ++ (back ++ rest) = done ++ (front ++ name.toList ++ back) ++ rest := by
    simp only [List.append_assoc]
  rw [hclause, ← hx.offset, hfront.offset] at hbraces
  simp only [hbraces, hone, isBracedAlone, takeWhile_reverse_of_part hdone hcomma, List.all_reverse]

theorem Binds.behind {b : Binding} (h : Binds statement source start d stop b) : d.offset ≤ b.span.start := by
  obtain ⟨lead, x, y, -, hdx, -, -, -, hspan, -⟩ := h
  exact hspan ▸ hdx.le

theorem Binds.before {b : Binding} (h : Binds statement source start d stop b) : b.span.stop ≤ stop.offset := by
  obtain ⟨lead, x, y, -, -, -, hstop, -, hspan, -⟩ := h
  exact hspan ▸ hstop.le

theorem Binds.mono {b : Binding} {d' stop' : Cursor} (h : Binds statement source start d stop b)
    (hd : d'.Reaches d) (hstop : stop.Reaches stop') : Binds statement source start d' stop' b := by
  obtain ⟨lead, x, y, hlead, hdx, hname, hy, hvalid, heq⟩ := h
  exact ⟨lead, x, y, hlead, hd.trans hdx, hname, hy.trans hstop, hvalid, heq⟩

/-- The bindings of the parts of a clause that are left behind `done`, in the order of their places. -/
theorem binds_partBindings (statement : Span) (source : String)
    (hdone : ∀ ch, done.getLast? = some ch → ch = ',') (hd : start.Path done d) (hrest : d.Path rest stop) :
    let bound := partBindings (bracesOf? start.offset (done ++ rest)) statement source d.offset (splitCommas rest)
    (∀ b ∈ bound, Binds statement source start d stop b) ∧
      bound.Pairwise fun a b => a.span.stop ≤ b.span.start := by
  induction hn : rest.length using Nat.strongRecOn generalizing done d rest with
  | ind n ih =>
    by_cases hcomma : ',' ∈ rest
    · obtain ⟨part, later, rfl, hpart⟩ := List.eq_append_cons_of_mem hcomma
      obtain ⟨hfirst, hlater⟩ := hrest.at_length
      obtain ⟨hsign, hlater⟩ := (show Path _ ([','] ++ later) stop from hlater).at_length
      have hpassed := hfirst.trans hsign
      have hoffset : d.offset + byteLength part + 1 = ((d.drop part.length).drop [','].length).offset := by
        rw [hsign.offset, hfirst.offset]
        rfl
      have ih := ih later.length (by simp at hn; omega) (by simp) (hd.trans hpassed) hlater rfl
      have hclause : done ++ (part ++ [',']) ++ later = done ++ (part ++ ',' :: later) := by simp
      rw [hclause] at ih
      obtain ⟨hbinds, hpairwise⟩ := ih
      have hbehind : ∀ b ∈ _, Binds statement source start d stop b := fun b hb =>
        (hbinds b hb).mono hpassed.reaches (.refl _)
      rw [splitCommas_append hpart, partBindings, hoffset]
      cases hlast : (namesIn d.offset part).getLast? with
      | none => exact ⟨hbehind, hpairwise⟩
      | some found =>
        have hfound := binds_of_part statement source hdone hpart hd hfirst
          (',' :: later) hlast
        rw [List.append_assoc] at hfound
        refine ⟨List.forall_mem_cons.mpr ⟨hfound.mono (.refl _) (hsign.reaches.trans hlater.reaches), hbehind⟩,
          .cons (fun b hb => ?_) hpairwise⟩
        exact Nat.le_trans hfound.before (Nat.le_trans hsign.le (hbinds b hb).behind)
    · rw [splitCommas_of_notMem hcomma, partBindings]
      cases hlast : (namesIn d.offset rest).getLast? with
      | none => exact ⟨by simp [partBindings], .nil⟩
      | some found =>
        have hfound := binds_of_part statement source hdone hcomma hd hrest [] hlast
        rw [List.append_nil] at hfound
        exact ⟨List.forall_mem_cons.mpr ⟨hfound, by simp [partBindings]⟩, List.pairwise_singleton _ _⟩

end Clause

/-- The bindings of an import, in the order of their places. -/
theorem imports_of_readImport? {c next : Cursor} {bound : List Binding}
    (h : readImport? c = some (bound, next)) :
    c.Reaches next ∧ (∀ b ∈ bound, Imports c next b) ∧ bound.Pairwise fun a b => a.span.stop ≤ b.span.start := by
  simp only [readImport?, Option.bind_eq_bind, Option.bind_eq_some_iff, Option.pure_def, Option.some.injEq,
    Prod.mk.injEq, Prod.exists] at h
  obtain ⟨start, hword, clause, source, next', hclause, rfl, rfl⟩ := h
  obtain ⟨gap, hstart, -, hgap⟩ := path_skipWord? hword
  obtain ⟨stop, hstop, hnext⟩ := path_readClause? hclause
  obtain ⟨hbinds, hpairwise⟩ := binds_partBindings (c.spanTo next'.offset) source (by simp)
    (.refl start) hstop
  refine ⟨hstart.reaches.trans (hstop.reaches.trans hnext), fun b hb => ?_, hpairwise⟩
  obtain ⟨lead, x, y, hlead, -, hname, hy, hvalid, hspan, hstatement, hkind⟩ := hbinds b hb
  refine ⟨source, gap ++ lead, x, y, ?_, hname, hy.trans hnext, hvalid, hspan, hstatement, ?_⟩
  · rw [← List.append_assoc]
    exact hstart.trans hlead
  · rw [isBracedAlone_append hgap]
    exact hkind

/-! ## Exports -/

/-- The export at the place `c` binds the name so: its statement is what is left of the line. -/
def Exports (c : Cursor) (b : Binding) : Prop :=
  ∃ (keyword : String) (lead : List Char) (x y : Cursor), c.Path lead x ∧ lead ≠ [] ∧ x.Path b.name.toList y ∧
    isValidName b.name.toList = true ∧ b.span = x.spanTo y.offset ∧ b.statement = c.spanTo c.lineEnd.offset ∧
      b.kind = .exported keyword

theorem path_readName? {c next : Cursor} {name : String} (h : readName? c = some (name, next)) :
    c.Path name.toList next ∧ isValidName name.toList = true := by
  unfold readName? at h
  split at h
  · cases h
  · next ch rest hrest =>
    split at h
    · next hstart =>
      cases h
      rw [String.toList_ofList]
      refine ⟨path_skipWhile c isNameChar, ?_⟩
      rw [hrest, List.takeWhile_cons_of_pos (isNameChar_of_isNameStart hstart)]
      exact isValidName_takeWhile hstart
    · cases h

theorem reaches_skipWord?_getD (word : String) (c : Cursor) : c.Reaches ((skipWord? word c).getD c) := by
  cases h : skipWord? word c with
  | none => exact .refl c
  | some start =>
    obtain ⟨gap, hpath, -⟩ := path_skipWord? h
    exact hpath.reaches

theorem exports_of_readExport? {c next : Cursor} {bound : List Binding}
    (h : readExport? c = some (bound, next)) : ∀ b ∈ bound, Exports c b := by
  simp only [readExport?, Option.bind_eq_bind, Option.bind_eq_some_iff, Option.pure_def, Option.some.injEq,
    Prod.mk.injEq, Prod.exists] at h
  obtain ⟨start, hword, keyword, place, hplace, name, next', hname, rfl, rfl⟩ := h
  obtain ⟨gap, hstart, -⟩ := path_skipWord? hword
  obtain ⟨_, -, hkeyword⟩ := List.exists_of_findSome?_eq_some hplace
  obtain ⟨place', hkeyword, heq⟩ := Option.map_eq_some_iff.mp hkeyword
  cases heq
  obtain ⟨gap', hkeyword, -⟩ := path_skipWord? hkeyword
  obtain ⟨hnamed, hvalid⟩ := path_readName? hname
  obtain ⟨middle, hmiddle⟩ :=
    (reaches_skipWord?_getD "default" start).trans (reaches_skipWord?_getD "async" _)
  rw [List.forall_mem_singleton]
  exact ⟨keyword, _, place, next', (hstart.trans hmiddle).trans hkeyword, by simp, hnamed, hvalid, rfl, rfl, rfl⟩

/-! ## Statements line by line -/

/-- Each binding is read at the start of a line. -/
theorem mem_readLines {read : Cursor → Option (List Binding × Cursor)} {offset : Nat} {lines : List Cursor}
    {b : Binding} (h : b ∈ readLines read offset lines) :
    ∃ c ∈ lines, ∃ bound next, read c = some (bound, next) ∧ b ∈ bound := by
  fun_induction readLines read offset lines with
  | case1 => cases h
  | case2 offset line lines _ ih =>
    obtain ⟨c, hc, hread⟩ := ih h
    exact ⟨c, List.mem_cons_of_mem _ hc, hread⟩
  | case3 offset line lines _ found next hline ih =>
    rcases List.mem_append.mp h with h | h
    · exact ⟨line, List.mem_cons_self, found, next, hline, h⟩
    · obtain ⟨c, hc, hread⟩ := ih h
      exact ⟨c, List.mem_cons_of_mem _ hc, hread⟩
  | case4 offset line lines _ _ ih =>
    obtain ⟨c, hc, hread⟩ := ih h
    exact ⟨c, List.mem_cons_of_mem _ hc, hread⟩

theorem Imports.within {c next : Cursor} {b : Binding} (h : Imports c next b) :
    c.offset < b.span.start ∧ b.span.stop ≤ next.offset := by
  obtain ⟨_, lead, x, y, hlead, -, hnext, -, hspan, -⟩ := h
  rw [hspan]
  exact ⟨hlead.lt (by simp), hnext.le⟩

/-- The names that are imported come in the order of their places: no line is read twice. -/
theorem readLines_imports (offset : Nat) (lines : List Cursor) :
    (∀ b ∈ readLines readImport? offset lines, offset ≤ b.span.start) ∧
      (readLines readImport? offset lines).Pairwise fun a b => a.span.stop ≤ b.span.start := by
  fun_induction readLines readImport? offset lines with
  | case1 => exact ⟨by simp, .nil⟩
  | case2 offset line lines _ ih => exact ih
  | case3 offset line lines hle found next hline ih =>
    obtain ⟨hbehind, hpairwise⟩ := ih
    obtain ⟨hnext, himports, hfound⟩ := imports_of_readImport? hline
    have hlineNext := hnext.le
    refine ⟨List.forall_mem_append.mpr ⟨fun b hb => ?_, fun b hb => ?_⟩,
      List.pairwise_append.mpr ⟨hfound, hpairwise, fun a ha b hb => ?_⟩⟩
    · have := (himports b hb).within.1
      omega
    · have := hbehind b hb
      omega
    · exact Nat.le_trans (himports a ha).within.2 (hbehind b hb)
  | case4 offset line lines _ _ ih => exact ih

variable {text : List Char} {b : Binding}

theorem mem_bindings : b ∈ bindings text ↔ b ∈ readLines readImport? 0 (ofText text).lines ∨
    b ∈ readLines readExport? 0 (ofText text).lines := by
  rw [bindings, List.mem_mergeSort, List.mem_append]

/-- **Each binding is read from an import or an export at a place of the text.** -/
theorem imports_or_exports (h : b ∈ bindings text) :
    ∃ c, c.On text ∧ ((∃ next, c.Reaches next ∧ Imports c next b) ∨ Exports c b) := by
  rcases mem_bindings.mp h with h | h
  · obtain ⟨c, hc, bound, next, hread, hb⟩ := mem_readLines h
    obtain ⟨hnext, himports, -⟩ := imports_of_readImport? hread
    exact ⟨c, reaches_of_mem_lines hc, .inl ⟨next, hnext, himports b hb⟩⟩
  · obtain ⟨c, hc, bound, next, hread, hb⟩ := mem_readLines h
    exact ⟨c, reaches_of_mem_lines hc, .inr (exports_of_readExport? hread b hb)⟩

/-- The bindings are in the order of their places. -/
theorem bindings_pairwise (text : List Char) :
    (bindings text).Pairwise fun a b => a.span.start ≤ b.span.start := by
  refine (List.pairwise_mergeSort ?_ ?_ _).imp of_decide_eq_true
  · simp only [decide_eq_true_eq]
    omega
  · simp only [Bool.or_eq_true, decide_eq_true_eq]
    omega

/-- The bindings that are imports are those that the reader of imports finds, once each. -/
theorem imports_perm (text : List Char) :
    ((bindings text).filter (·.isImport)).Perm (readLines readImport? 0 (ofText text).lines) := by
  have hperm := (List.mergeSort_perm
    (readLines readImport? 0 (ofText text).lines ++ readLines readExport? 0 (ofText text).lines)
    fun a b : Binding => a.span.start ≤ b.span.start).filter (·.isImport)
  have hall : ∀ b ∈ readLines readImport? 0 (ofText text).lines, b.isImport = true := by
    intro b hb
    obtain ⟨c, -, bound, next, hread, hb⟩ := mem_readLines hb
    obtain ⟨_, _, _, _, -, -, -, -, -, -, hkind⟩ := (imports_of_readImport? hread).2.1 b hb
    simp [Binding.isImport, hkind]
  have hnone : ∀ b ∈ readLines readExport? 0 (ofText text).lines, ¬ b.isImport = true := by
    intro b hb
    obtain ⟨c, -, bound, next, hread, hb⟩ := mem_readLines hb
    obtain ⟨_, _, _, _, -, -, -, -, -, -, hkind⟩ := exports_of_readExport? hread b hb
    simp [Binding.isImport, hkind]
  rw [List.filter_append, List.filter_eq_self.mpr hall, List.filter_eq_nil_iff.mpr hnone, List.append_nil] at hperm
  exact hperm

/-! ## Where bindings stand -/

/-- The name stands in the text at the binding's span, behind the start of its statement. -/
structure Binding.StandsIn (text : List Char) (b : Binding) : Prop where
  inText : b.span.InText text
  slice_eq : slice text b.span = b.name.toList
  valid : isValidName b.name.toList = true
  behind : b.statement.start < b.span.start
  statement : b.statement.InText text

theorem standsIn_bindings (h : b ∈ bindings text) : b.StandsIn text := by
  obtain ⟨c, hc, ⟨next, hnext, _, lead, x, y, hlead, hname, -, hvalid, hspan, hstatement, -⟩ |
    ⟨_, lead, x, y, hlead, hne, hname, hvalid, hspan, hstatement, -⟩⟩ := imports_or_exports h
  · have hx := hc.reaches hlead.reaches
    exact ⟨hspan ▸ Span.inText_spanTo hx hname.reaches, hspan ▸ hx.slice hname, hvalid,
      hspan ▸ hstatement ▸ hlead.lt (by simp), hstatement ▸ Span.inText_spanTo hc hnext⟩
  · have hx := hc.reaches hlead.reaches
    exact ⟨hspan ▸ Span.inText_spanTo hx hname.reaches, hspan ▸ hx.slice hname, hvalid,
      hspan ▸ hstatement ▸ hlead.lt hne, hstatement ▸ Span.inText_spanTo hc (path_lineEnd c).reaches⟩

theorem Binding.StandsIn.lt (h : b.StandsIn text) : b.span.start < b.span.stop := by
  obtain ⟨x, y, t, hx, hname, hspan⟩ := h.inText.path
  have hslice := h.slice_eq
  rw [hspan, hx.slice hname] at hslice
  rw [hspan]
  refine hname.lt ?_
  rintro rfl
  have hvalid := h.valid
  rw [← hslice] at hvalid
  cases hvalid

/-- The text of an import from behind its word up to the bound name. -/
def Binding.lead (text : List Char) (b : Binding) : List Char :=
  (slice text ⟨b.statement.start, b.span.start⟩).drop "import".length

/-- An import needs an alias if its name is the first one of its part, in braces that are open. -/
theorem needsAlias_eq (h : b ∈ bindings text) {source : String} {needsAlias : Bool}
    (hkind : b.kind = .imported source needsAlias) : needsAlias = isBracedAlone (b.lead text) := by
  obtain ⟨c, hc, ⟨next, -, _, lead, x, y, hlead, -, -, -, hspan, hstatement, hread⟩ |
    ⟨_, _, _, _, -, -, -, -, -, -, hread⟩⟩ := imports_or_exports h
  · obtain ⟨-, rfl⟩ := BindingKind.imported.inj (hkind.symm.trans hread)
    have hslice : slice text ⟨b.statement.start, b.span.start⟩ = "import".toList ++ lead := by
      rw [hspan, hstatement]
      exact hc.slice hlead
    rw [Binding.lead, hslice]
    rfl
  · cases hkind.symm.trans hread

/-- A place is on the line of another one before it if no line feed is between them. -/
theorem le_lineEnd_iff {c d : Cursor} {t : List Char} (h : c.Path t d) :
    d.offset ≤ c.lineEnd.offset ↔ '\n' ∉ t := by
  have hline := path_lineEnd c
  constructor
  · intro hle hmem
    obtain ⟨v, hv, -⟩ := h.split hline hle
    have hfeed : '\n' ∈ c.line := hv ▸ List.mem_append_left _ hmem
    exact absurd (forall_mem_takeWhile _ hfeed) (by decide)
  · intro hnone
    refine Nat.le_of_not_lt fun hlt => hnone ?_
    obtain ⟨v, rfl, hv⟩ := hline.split h (Nat.le_of_lt hlt)
    rcases isLineEnd_iff.mp (isLineEnd_lineEnd c) with hrest | ⟨rest, hrest⟩
    · exact absurd (List.append_eq_nil_iff.mp (hv.rest.symm.trans hrest)).1 (hv.ne_nil hlt)
    · exact List.mem_append_right _ (hv.head_mem hrest hlt).1

/-- **The statement of an import holds the name, and that of an export does exactly if no line feed
stands before it in the statement.** -/
theorem statement_holds_iff (h : b ∈ bindings text) : b.span.stop ≤ b.statement.stop ↔
    (b.isImport = true ∨ '\n' ∉ slice text ⟨b.statement.start, b.span.start⟩) := by
  obtain ⟨c, hc, ⟨next, hnext, _, lead, x, y, hlead, hname, hy, hvalid, hspan, hstatement, hkind⟩ |
    ⟨_, lead, x, y, hlead, hne, hname, hvalid, hspan, hstatement, hkind⟩⟩ := imports_or_exports h
  · have himport : b.isImport = true := by simp [Binding.isImport, hkind]
    rw [hspan, hstatement]
    exact iff_of_true hy.le (.inl himport)
  · have himport : b.isImport = false := by simp [Binding.isImport, hkind]
    have hfeed : '\n' ∉ b.name.toList := notMem_of_isValidName hvalid (by decide)
    rw [hspan, hstatement, himport]
    show y.offset ≤ c.lineEnd.offset ↔ _ ∨ '\n' ∉ slice text (c.spanTo x.offset)
    rw [hc.slice hlead, le_lineEnd_iff (hlead.trans hname), List.mem_append]
    simp [hfeed]

end Script

end Mdx

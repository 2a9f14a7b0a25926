/-
The outline of headings. While it is built, some sections are open, and they are
kept on a stack; `nest` says at once what comes out of it: the sections of greater
levels right behind a section go below it. A section is closed when nothing more
can go below it (`nest_close`), so closing keeps what `nest` makes of the stack
(`outline_eq_nest`), and what holds of the outline is proved by induction on `nest`.

The ranges come from a search of their own in the headings behind. It stops where
the run of greater levels does, and only what shows nowhere is trimmed off: so the
ranges lie in each other as the sections do (`ranged_openSections`), which makes the
outline one of nested ranges (`outline_nests_headings`).
-/
import Mdx.Proofs.Service.Symbol
import Mdx.Proofs.Tree.Block
import Mdx.Service.Markdown

namespace Mdx.MarkdownService

open Cursor

open Markdown (Heading)

/-! ## Trimming -/

section

variable {text : List Char} {s t : Span} {o : Nat} {ch : Char}

theorem trimSpan_stop_le (hs : s.InText text) : (trimSpan text s).stop ≤ s.stop := by
  obtain ⟨tail, htail, -⟩ := trimRight_append (slice text s)
  have hlen := hs.byteLength_slice
  rw [htail, byteLength_append, Span.length] at hlen
  have := hs.ordered
  rw [trimSpan]
  dsimp only
  omega

/-- A character that shows is not trimmed off. -/
theorem holdsChar_trimSpan (hs : s.InText text) (hch : ShowsAt text o ch) (ho : s.contains o = true) :
    (trimSpan text s).holdsChar o ch = true := by
  obtain ⟨a, b, u, ha, hu, rfl⟩ := hs.path
  obtain ⟨tail, hkept, htail, -, hblank⟩ := path_trimmedTo hu
  obtain ⟨x, hx, rfl, rest, hrest⟩ := on_of_charAt? hch.stands
  obtain ⟨hlo, hhi⟩ := Span.contains_iff.mp ho
  have hm := ha.reaches hkept.reaches
  have hstop : (trimSpan text (a.spanTo b.offset)).stop = (a.trimmedTo b.offset).offset := by
    rw [trimSpan, ha.slice hu, hkept.offset]
    rfl
  have hin : x.offset < (a.trimmedTo b.offset).offset := by
    refine Nat.lt_of_not_le fun hle => ?_
    -- Else the character is one of those that are trimmed off.
    obtain ⟨v, hv⟩ := hm.reaches_of_le hx hle
    obtain ⟨w, rfl, hw⟩ := hv.split htail (Nat.le_of_lt hhi)
    exact Bool.false_ne_true
      (hch.shows.symm.trans (hblank ch (List.mem_append_right v (hw.head_mem hrest hhi).1)))
  obtain ⟨v, hv⟩ := hx.reaches_of_le hm (Nat.le_of_lt hin)
  exact Span.holdsChar_iff.mpr ⟨hlo, hstop ▸ (hv.head_mem hrest hin).2⟩

/-- A span that is trimmed ends with a character that shows. -/
theorem exists_showsAt_trimSpan (hs : s.InText text) (hlt : s.start < (trimSpan text s).stop) :
    ∃ o ch, ShowsAt text o ch ∧ s.contains o = true ∧ o + ch.utf8Size = (trimSpan text s).stop := by
  obtain ⟨a, b, u, ha, hu, rfl⟩ := hs.path
  obtain ⟨tail, hkept, htail, -, -⟩ := path_trimmedTo hu
  have hstop : (trimSpan text (a.spanTo b.offset)).stop = (a.trimmedTo b.offset).offset := by
    rw [trimSpan, ha.slice hu, hkept.offset]
    rfl
  rw [hstop] at hlt ⊢
  obtain ⟨ch, hch⟩ := Option.isSome_iff_exists.mp (List.getLast?_isSome.mpr (hkept.ne_nil hlt))
  obtain ⟨front, hfront⟩ := List.getLast?_eq_some_iff.mp hch
  rw [hfront] at hkept
  obtain ⟨hx, hlast⟩ := hkept.at_length
  have hoff := hlast.offset
  rw [byteLength_cons, byteLength_nil] at hoff
  refine ⟨_, ch, ⟨charAt?_offset (ha.reaches hx.reaches) hlast.rest, getLast?_trimRight hch⟩,
    Span.contains_iff.mpr ⟨hx.le, ?_⟩, hoff.symm⟩
  have := htail.le
  have := ch.utf8Size_pos
  dsimp only [spanTo]
  omega

/-- A span in another one lies in it after trimming too, if something shows of it. -/
theorem within_trimSpan (hs : s.InText text) (ht : t.InText text) (hst : s.Within t)
    (hlt : s.start < (trimSpan text s).stop) : (trimSpan text s).Within (trimSpan text t) := by
  obtain ⟨o, ch, hch, ho, hstop⟩ := exists_showsAt_trimSpan hs hlt
  have hheld := Span.holdsChar_iff.mp (holdsChar_trimSpan ht hch (hst.contains ho))
  exact ⟨hst.start_le, hstop ▸ hheld.2⟩

end

/-! ## The stack of open sections -/

/-- The sections of headings, with nothing in them yet. -/
def openSections (text : List Char) : List Heading → List OpenSection
  | [] => []
  | h :: later => ⟨h.level, headingEntry text h later, []⟩ :: openSections text later

/-- The outline of sections: those of greater levels right behind a section go below it. -/
def nest : List OpenSection → List Symbol
  | [] => []
  | s :: later =>
    .mk s.entry (s.children ++ nest (later.takeWhile (s.level < ·.level))) ::
      nest (later.dropWhile (s.level < ·.level))
  termination_by ss => ss.length
  decreasing_by
  · exact Nat.lt_succ_of_le (List.takeWhile_sublist _).length_le
  · exact Nat.lt_succ_of_le (List.dropWhile_sublist _).length_le

section

variable {s p : OpenSection} {front items stack : List OpenSection}

/-- Nothing of the sections goes below one of the level: the first of them closes it. -/
def Closes (level : Nat) (items : List OpenSection) : Prop := ∀ t, items.head? = some t → t.level ≤ level

theorem Closes.takeWhile {level : Nat} (h : Closes level items) (q : OpenSection → Bool) :
    Closes level (items.takeWhile q) := by
  intro t ht
  cases items with
  | nil => cases ht
  | cons u items =>
    rw [List.takeWhile_cons] at ht
    split at ht
    · exact h t ht
    · cases ht

theorem Closes.takeWhile_eq_nil {level : Nat} (h : Closes level items) :
    items.takeWhile (level < ·.level) = [] := by
  cases items with
  | nil => rfl
  | cons t items => exact List.takeWhile_cons_of_neg (by simpa using h t rfl)

theorem Closes.dropWhile_eq {level : Nat} (h : Closes level items) :
    items.dropWhile (level < ·.level) = items := by
  cases items with
  | nil => rfl
  | cons t items => exact List.dropWhile_cons_of_neg (by simpa using h t rfl)

/-- A section that nothing can go below any more is a symbol. -/
theorem nest_cons_of_closes (h : Closes s.level items) : nest (s :: items) = s.close :: nest items := by
  rw [nest, h.takeWhile_eq_nil, h.dropWhile_eq, nest, List.append_nil, OpenSection.close]

/-- **A section that nothing can go below any more goes into the one around it.** -/
theorem nest_close (hlevels : (front ++ [p, s]).Pairwise fun a b => a.level < b.level)
    (h : Closes s.level items) : nest (front ++ p :: s :: items) =
      nest (front ++ { p with children := p.children ++ [s.close] } :: items) := by
  induction front generalizing items with
  | nil =>
    obtain ⟨hps, -⟩ := List.pairwise_cons.mp hlevels
    have hs : decide (p.level < s.level) = true := decide_eq_true (hps s (.head _))
    rw [List.nil_append, List.nil_append, nest, nest]
    simp only [List.takeWhile_cons, List.dropWhile_cons, hs, if_true, nest_cons_of_closes (h.takeWhile _),
      List.append_assoc, List.singleton_append]
  | cons f front ih =>
    obtain ⟨hf, hlevels⟩ := List.pairwise_cons.mp hlevels
    have hfront : ∀ t ∈ front, decide (f.level < t.level) = true := fun t ht =>
      decide_eq_true (hf t (List.mem_append_left _ ht))
    have hp : decide (f.level < p.level) = true := decide_eq_true (hf p (by simp))
    have hs : decide (f.level < s.level) = true := decide_eq_true (hf s (by simp))
    rw [List.cons_append, List.cons_append, nest, nest]
    simp only [List.takeWhile_append_of_pos hfront, List.dropWhile_append_of_pos hfront, List.takeWhile_cons,
      List.dropWhile_cons, hp, hs, if_true, ih hlevels (h.takeWhile _)]

/-- The levels fall from the innermost section of a stack outwards. -/
def Falling (stack : List OpenSection) : Prop := stack.Pairwise fun s p => p.level < s.level

/-- **Closing sections keeps the outline,** and those that stay open are of smaller levels. -/
theorem nest_closeSections {level : Nat} (roots : List Symbol) (hstack : Falling stack)
    (h : Closes level items) :
    let r := closeSections level stack roots
    r.2 ++ nest (r.1.reverse ++ items) = roots ++ nest (stack.reverse ++ items) ∧ Falling r.1 ∧
      ∀ s ∈ r.1, s.level < level := by
  fun_induction closeSections level stack roots with
  | case1 => exact ⟨rfl, hstack, by simp⟩
  | case2 s roots hle =>
    refine ⟨?_, .nil, by simp⟩
    have hs : Closes s.level items := fun t ht => Nat.le_trans (h t ht) hle
    simp only [List.reverse_nil, List.nil_append, List.reverse_singleton, List.singleton_append,
      nest_cons_of_closes hs, List.append_assoc]
  | case3 s roots hgt =>
    exact ⟨rfl, hstack, List.forall_mem_singleton.mpr (Nat.lt_of_not_le hgt)⟩
  | case4 s p stack roots hle ih =>
    obtain ⟨hs, hstack'⟩ := List.pairwise_cons.mp hstack
    obtain ⟨hnest, hrest⟩ := ih (List.pairwise_cons.mpr (List.pairwise_cons.mp hstack'))
    refine ⟨hnest.trans ?_, hrest⟩
    have hlevels : (stack.reverse ++ [p, s]).Pairwise fun a b => a.level < b.level := by
      simpa using List.pairwise_reverse.mpr hstack
    simp only [List.reverse_cons, List.append_assoc, List.singleton_append]
    rw [List.cons_append, List.singleton_append, nest_close hlevels fun t ht => Nat.le_trans (h t ht) hle]
  | case5 s p stack roots hgt =>
    refine ⟨rfl, hstack, fun t ht => ?_⟩
    rcases List.mem_cons.mp ht with rfl | ht
    · exact Nat.lt_of_not_le hgt
    · exact Nat.lt_trans ((List.pairwise_cons.mp hstack).1 t ht) (Nat.lt_of_not_le hgt)

theorem outlineFrom_eq_nest (text : List Char) (hs : List Heading) {roots : List Symbol} (hstack : Falling stack) :
    outlineFrom text stack roots hs = roots ++ nest (stack.reverse ++ openSections text hs) := by
  induction hs generalizing stack roots with
  | nil =>
    have hcloses : Closes 0 [] := fun _ ht => nomatch ht
    obtain ⟨hnest, -, hbelow⟩ := nest_closeSections roots hstack hcloses
    have hnil : (closeSections 0 stack roots).1 = [] :=
      List.eq_nil_iff_forall_not_mem.mpr fun s hs => Nat.not_lt_zero _ (hbelow s hs)
    rw [outlineFrom, openSections, ← hnest, hnil, List.reverse_nil, List.nil_append, nest, List.append_nil]
  | cons h later ih =>
    have hcloses : Closes h.level (openSections text (h :: later)) := by simp [Closes, openSections]
    obtain ⟨hnest, hfall, hbelow⟩ := nest_closeSections roots hstack hcloses
    rw [outlineFrom]
    dsimp only
    rw [ih (List.pairwise_cons.mpr ⟨hbelow, hfall⟩), ← hnest, openSections, List.reverse_cons, List.append_assoc,
      List.singleton_append]

/-- **The outline is that of the sections.** -/
theorem outline_eq_nest (text : List Char) (hs : List Heading) : outline text hs = nest (openSections text hs) := by
  rw [outline, outlineFrom_eq_nest text hs .nil, List.reverse_nil, List.nil_append, List.nil_append]

end

/-! ## What each section is below -/

/-- The entries of sections, each with that of the nearest section before it of a smaller level. `earlier` has
the sections before the list, the nearest first. -/
def nearest (earlier : List OpenSection) : List OpenSection → List (Option SymbolEntry × SymbolEntry)
  | [] => []
  | s :: later => ((earlier.find? (·.level < s.level)).map (·.entry), s.entry) :: nearest (s :: earlier) later

/-- What a later section of a level is below, with one more section before it. -/
def behind (above : Nat → Option SymbolEntry) (s : OpenSection) : Nat → Option SymbolEntry := fun level =>
  if s.level < level then some s.entry else above level

/-- The entries of sections, each with what it is below; `above` tells what a section of a level is below if
it is below none of the list. -/
def below (above : Nat → Option SymbolEntry) : List OpenSection → List (Option SymbolEntry × SymbolEntry)
  | [] => []
  | s :: later => (above s.level, s.entry) :: below (behind above s) later

section

variable {above above' : Nat → Option SymbolEntry} {s : OpenSection} {items front : List OpenSection}

theorem nearest_eq_below (earlier items : List OpenSection) :
    nearest earlier items = below (fun level => (earlier.find? (·.level < level)).map (·.entry)) items := by
  induction items generalizing earlier with
  | nil => rfl
  | cons s later ih =>
    rw [nearest, below, ih]
    congr 2
    funext level
    rw [behind, List.find?_cons]
    by_cases hlt : s.level < level <;> simp [hlt]

theorem map_nearest (earlier items : List OpenSection) : (nearest earlier items).map Prod.snd = items.map (·.entry) := by
  induction items generalizing earlier with
  | nil => rfl
  | cons s later ih => rw [nearest, List.map_cons, ih, List.map_cons]

theorem below_append (above : Nat → Option SymbolEntry) (front items : List OpenSection) :
    below above (front ++ items) = below above front ++ below (front.foldl behind above) items := by
  induction front generalizing above with
  | nil => rfl
  | cons s front ih => rw [List.cons_append, below, below, ih, List.cons_append, List.foldl_cons]

/-- Only the levels of the sections are looked up. -/
theorem below_congr (h : ∀ s ∈ items, above s.level = above' s.level) : below above items = below above' items := by
  induction items generalizing above above' with
  | nil => rfl
  | cons s later ih =>
    rw [List.forall_mem_cons] at h
    rw [below, below, h.1, ih fun t ht => ?_]
    rw [behind, behind, h.2 t ht]

/-- Behind a section, no greater level is looked up any more. -/
theorem below_congr_head (h : ∀ level, level ≤ s.level → above level = above' level) :
    below above (s :: items) = below above' (s :: items) := by
  have hbehind : behind above s = behind above' s := by
    funext level
    by_cases hlt : s.level < level
    · rw [behind, behind, if_pos hlt, if_pos hlt]
    · rw [behind, behind, if_neg hlt, if_neg hlt, h level (Nat.le_of_not_lt hlt)]
  rw [below, below, h s.level (Nat.le_refl _), hbehind]

theorem foldl_behind {level : Nat} (h : ∀ s ∈ front, level ≤ s.level) : front.foldl behind above level = above level := by
  induction front generalizing above with
  | nil => rfl
  | cons s front ih =>
    rw [List.forall_mem_cons] at h
    rw [List.foldl_cons, ih h.2, behind, if_neg (Nat.not_lt_of_le h.1)]

/-- **In the outline, each section is below the nearest one before it of a smaller level.** -/
theorem parentedAll_nest (above : Option SymbolEntry) (items : List OpenSection)
    (hnew : ∀ s ∈ items, s.children = []) : parentedAll above (nest items) = below (fun _ => above) items := by
  fun_induction nest items generalizing above with
  | case1 => rw [parentedAll, below]
  | case2 s later ihin ihbehind =>
    rw [List.forall_mem_cons] at hnew
    have hin := ihin (some s.entry) fun t ht => hnew.2 t ((List.takeWhile_sublist _).subset ht)
    have hbehind := ihbehind above fun t ht => hnew.2 t ((List.dropWhile_sublist _).subset ht)
    rw [parentedAll, Symbol.parented, hnew.1, List.nil_append, hin, hbehind, List.cons_append, below]
    congr 1
    have hgreater : ∀ t ∈ later.takeWhile (s.level < ·.level), s.level < t.level := fun t ht =>
      of_decide_eq_true (List.all_eq_true.mp List.all_takeWhile t ht)
    conv => rhs; rw [← List.takeWhile_append_dropWhile (p := (s.level < ·.level)) (l := later), below_append]
    congr 1
    · exact (below_congr fun t ht => if_pos (hgreater t ht)).symm
    · cases hrest : later.dropWhile (s.level < ·.level) with
      | nil => rfl
      | cons t rest =>
        have hle : ¬ s.level < t.level := by
          have := List.head?_dropWhile_not (s.level < ·.level) later
          rw [hrest] at this
          simpa using this
        refine below_congr_head fun level hlevel => ?_
        rw [foldl_behind fun u hu => ?_, behind, if_neg (by omega)]
        have := hgreater u hu
        omega

theorem entriesAll_nest (items : List OpenSection) (hnew : ∀ s ∈ items, s.children = []) :
    entriesAll (nest items) = items.map (·.entry) := by
  rw [← map_parentedAll none, parentedAll_nest none items hnew, ← map_nearest [], nearest_eq_below]
  rfl

end

/-! ## The ranges -/

/-- The ranges of sections fit their levels: a section holds those of greater levels right behind it, and the
others begin where it stops, or later. -/
inductive Ranged : List OpenSection → Prop
  | nil : Ranged []
  | cons {s : OpenSection} {later : List OpenSection} : s.entry.range.start < s.entry.range.stop →
    (∀ t ∈ later.takeWhile (s.level < ·.level), t.entry.range.Within s.entry.range) →
    (∀ t ∈ later.dropWhile (s.level < ·.level), s.entry.range.stop ≤ t.entry.range.start) →
    Ranged later → Ranged (s :: later)

section

variable {s : OpenSection} {front items : List OpenSection}

theorem Ranged.of_append_left (h : Ranged (front ++ items)) : Ranged front := by
  induction front with
  | nil => exact .nil
  | cons s front ih =>
    obtain _ | ⟨hne, hin, hbehind, hlater⟩ := h
    refine .cons hne (fun t ht => hin t ?_) (fun t ht => hbehind t ?_) (ih hlater)
    · rw [List.append_eq, List.takeWhile_append]
      split
      · exact List.mem_append_left _ ((List.takeWhile_sublist _).subset ht)
      · exact ht
    · rw [List.append_eq, List.dropWhile_append, if_neg (by simpa using List.ne_nil_of_mem ht)]
      exact List.mem_append_left _ ht

theorem Ranged.of_append_right (h : Ranged (front ++ items)) : Ranged items := by
  induction front with
  | nil => exact h
  | cons s front ih =>
    obtain _ | ⟨-, -, -, hlater⟩ := h
    exact ih hlater

theorem exists_of_mem_nest {s : Symbol} (h : s ∈ nest items) : ∃ t ∈ items, t.entry = s.entry := by
  fun_induction nest items with
  | case1 => cases h
  | case2 t later _ ih =>
    rcases List.mem_cons.mp h with rfl | h
    · exact ⟨t, .head _, rfl⟩
    · obtain ⟨u, hu, hentry⟩ := ih h
      exact ⟨u, .tail _ ((List.dropWhile_sublist _).subset hu), hentry⟩

/-- **The outline of sections has ranges that lie in each other.** -/
theorem nested_nest (hnew : ∀ s ∈ items, s.children = []) (h : Ranged items) : ∀ s ∈ nest items, s.Nested := by
  fun_induction nest items with
  | case1 => simp
  | case2 s later ihin ihbehind =>
    rw [List.forall_mem_cons] at hnew
    obtain _ | ⟨hne, hin, -, hlater⟩ := h
    have hsplit := List.takeWhile_append_dropWhile (p := (s.level < ·.level)) (l := later)
    rw [← hsplit] at hlater
    rw [List.forall_mem_cons, hnew.1, List.nil_append]
    refine ⟨.mk hne (fun c hc => ?_) ?_, ?_⟩
    · obtain ⟨t, ht, hentry⟩ := exists_of_mem_nest hc
      exact hentry ▸ hin t ht
    · exact ihin (fun t ht => hnew.2 t ((List.takeWhile_sublist _).subset ht)) hlater.of_append_left
    · exact ihbehind (fun t ht => hnew.2 t ((List.dropWhile_sublist _).subset ht)) hlater.of_append_right

/-- **The outline of sections has ranges that follow each other.** -/
theorem spread_nest (hnew : ∀ s ∈ items, s.children = []) (h : Ranged items) : Spread (nest items) := by
  fun_induction nest items with
  | case1 => exact .mk .nil (by simp)
  | case2 s later ihin ihbehind =>
    rw [List.forall_mem_cons] at hnew
    obtain _ | ⟨-, -, hbehind, hlater⟩ := h
    have hsplit := List.takeWhile_append_dropWhile (p := (s.level < ·.level)) (l := later)
    rw [← hsplit] at hlater
    obtain ⟨hapart, hspread⟩ :=
      ihbehind (fun t ht => hnew.2 t ((List.dropWhile_sublist _).subset ht)) hlater.of_append_right
    refine .mk (List.pairwise_cons.mpr ⟨fun c hc => ?_, hapart⟩) (List.forall_mem_cons.mpr ⟨?_, hspread⟩)
    · obtain ⟨t, ht, hentry⟩ := exists_of_mem_nest hc
      exact hentry ▸ hbehind t ht
    · rw [Symbol.children, hnew.1, List.nil_append]
      exact ihin (fun t ht => hnew.2 t ((List.takeWhile_sublist _).subset ht)) hlater.of_append_left

end

/-! ## Headings -/

/-- The headings stand in the text one behind the other, and each begins and ends with what shows. -/
structure Headed (text : List Char) (hs : List Heading) : Prop where
  inText : ∀ h ∈ hs, h.span.InText text
  ascending : hs.Pairwise fun a b => a.span.start < b.span.start
  disjoint : hs.Pairwise fun a b => a.span.stop ≤ b.span.start
  shows : ∀ h ∈ hs, ∃ ch, ShowsAt text h.span.start ch
  trimmed : ∀ h ∈ hs, trimSpan text h.span = h.span

/-- Where the section of a heading stops before it is trimmed. -/
def sectionStop (text : List Char) (level : Nat) (later : List Heading) : Nat :=
  ((later.find? (·.level ≤ level)).map (·.span.start)).getD (byteLength text)

section

variable {text : List Char} {level level' : Nat} {h : Heading} {hs post : List Heading}

theorem sectionSpan_eq (text : List Char) (h : Heading) (post : List Heading) :
    sectionSpan text h post = trimSpan text ⟨h.span.start, sectionStop text h.level post⟩ := rfl

theorem Headed.tail (hh : Headed text (h :: post)) : Headed text post where
  inText := (List.forall_mem_cons.mp hh.inText).2
  ascending := (List.pairwise_cons.mp hh.ascending).2
  disjoint := (List.pairwise_cons.mp hh.disjoint).2
  shows := (List.forall_mem_cons.mp hh.shows).2
  trimmed := (List.forall_mem_cons.mp hh.trimmed).2

theorem sectionStop_of_lt (hlt : level < h.level) : sectionStop text level (h :: post) = sectionStop text level post := by
  rw [sectionStop, List.find?_cons_of_neg (by simpa using hlt), sectionStop]

theorem sectionStop_of_le (hle : h.level ≤ level) : sectionStop text level (h :: post) = h.span.start := by
  rw [sectionStop, List.find?_cons_of_pos (by simpa using hle), Option.map_some, Option.getD_some]

/-- A section stops at a later heading or with the text. -/
theorem sectionStop_cases (text : List Char) (level : Nat) (post : List Heading) :
    sectionStop text level post = byteLength text ∨ ∃ h ∈ post, sectionStop text level post = h.span.start := by
  rw [sectionStop]
  cases hfind : post.find? (·.level ≤ level) with
  | none => exact .inl rfl
  | some h => exact .inr ⟨h, List.mem_of_find?_eq_some hfind, rfl⟩

/-- What a heading opens goes on to the end of the heading at least, and is not empty. -/
theorem Headed.le_sectionStop (hh : Headed text (h :: post)) (level : Nat) :
    h.span.start < sectionStop text level post ∧ h.span.stop ≤ sectionStop text level post := by
  obtain ⟨ch, hch⟩ := hh.shows h (.head _)
  rcases sectionStop_cases text level post with heq | ⟨next, hnext, heq⟩
  · exact heq ▸ ⟨hch.lt, (hh.inText h (.head _)).bounded⟩
  · exact heq ▸ ⟨(List.pairwise_cons.mp hh.ascending).1 next hnext, (List.pairwise_cons.mp hh.disjoint).1 next hnext⟩

/-- A section of a greater level does not stop later. -/
theorem Headed.sectionStop_le (hh : Headed text hs) (hle : level ≤ level') :
    sectionStop text level' hs ≤ sectionStop text level hs := by
  induction hs with
  | nil => exact Nat.le_refl _
  | cons h post ih =>
    by_cases hlevel : h.level ≤ level
    · exact Nat.le_of_eq
        ((sectionStop_of_le (Nat.le_trans hlevel hle)).trans (sectionStop_of_le hlevel).symm)
    · rw [sectionStop_of_lt (Nat.lt_of_not_le hlevel)]
      by_cases hlevel' : h.level ≤ level'
      · rw [sectionStop_of_le hlevel']
        exact Nat.le_of_lt (hh.le_sectionStop level).1
      · rw [sectionStop_of_lt (Nat.lt_of_not_le hlevel')]
        exact ih hh.tail

theorem Headed.inText_section (hh : Headed text (h :: post)) (level : Nat) :
    Span.InText text ⟨h.span.start, sectionStop text level post⟩ := by
  have hstarts := (hh.inText h (.head _)).startsBetween
  have hordered := Nat.le_of_lt (hh.le_sectionStop level).1
  rcases sectionStop_cases text level post with heq | ⟨next, hnext, heq⟩
  · rw [heq] at hordered ⊢
    exact ⟨hordered, Nat.le_refl _, hstarts, On.isBoundary (path_ofEnd text).reaches⟩
  · rw [heq] at hordered ⊢
    have hin := hh.inText next (.tail _ hnext)
    exact ⟨hordered, Nat.le_trans hin.ordered hin.bounded, hstarts, hin.startsBetween⟩

/-- A section is not empty after trimming either, since its heading shows. -/
theorem Headed.nonempty_section (hh : Headed text (h :: post)) :
    (sectionSpan text h post).start < (sectionSpan text h post).stop := by
  obtain ⟨ch, hch⟩ := hh.shows h (.head _)
  have hheld := holdsChar_trimSpan (hh.inText_section h.level) hch
    (Span.contains_iff.mpr ⟨Nat.le_refl _, (hh.le_sectionStop h.level).1⟩)
  exact Nat.lt_of_lt_of_le (Nat.lt_add_of_pos_right ch.utf8Size_pos) (Span.holdsChar_iff.mp hheld).2

/-- A heading lies in its section. -/
theorem Headed.within_section (hh : Headed text (h :: post)) : h.span.Within (sectionSpan text h post) := by
  have htrimmed := hh.trimmed h (.head _)
  by_cases hempty : h.span.stop ≤ h.span.start
  · exact ⟨Nat.le_refl _, Nat.le_trans hempty (Nat.le_of_lt hh.nonempty_section)⟩
  · have hwithin := within_trimSpan (hh.inText h (.head _)) (hh.inText_section h.level)
      ⟨Nat.le_refl _, (hh.le_sectionStop h.level).2⟩ (htrimmed.symm ▸ Nat.lt_of_not_le hempty)
    rwa [htrimmed] at hwithin

/-- The sections of greater levels right behind a heading stop where its section does, or before. -/
theorem Headed.section_le (hh : Headed text hs) {s : OpenSection}
    (hsec : s ∈ (openSections text hs).takeWhile (level < ·.level)) : ∃ t : Span, t.InText text ∧
      s.entry.range = trimSpan text t ∧ t.start < s.entry.range.stop ∧
      (∃ h ∈ hs, t.start = h.span.start) ∧ t.stop ≤ sectionStop text level hs := by
  induction hs with
  | nil => cases hsec
  | cons h post ih =>
    rw [openSections, List.takeWhile_cons] at hsec
    split at hsec
    case isFalse => cases hsec
    case isTrue hlt =>
      have hlt : level < h.level := of_decide_eq_true hlt
      rw [sectionStop_of_lt hlt]
      rcases List.mem_cons.mp hsec with rfl | hsec
      · exact ⟨_, hh.inText_section h.level, sectionSpan_eq text h post, hh.nonempty_section, ⟨h, .head _, rfl⟩,
          hh.tail.sectionStop_le (Nat.le_of_lt hlt)⟩
      · obtain ⟨t, ht, hrange, hne, ⟨h', hh', hstart⟩, hstop⟩ := ih hh.tail hsec
        exact ⟨t, ht, hrange, hne, ⟨h', .tail _ hh', hstart⟩, hstop⟩

theorem exists_of_mem_openSections {s : OpenSection} (hsec : s ∈ openSections text hs) :
    ∃ h ∈ hs, s.entry.range.start = h.span.start := by
  induction hs with
  | nil => cases hsec
  | cons h post ih =>
    rcases List.mem_cons.mp hsec with rfl | hsec
    · exact ⟨h, .head _, rfl⟩
    · obtain ⟨h', hh', hstart⟩ := ih hsec
      exact ⟨h', .tail _ hh', hstart⟩

/-- The other sections behind a heading begin where its section stops, or later. -/
theorem Headed.le_section (hh : Headed text hs) {s : OpenSection}
    (hsec : s ∈ (openSections text hs).dropWhile (level < ·.level)) :
    sectionStop text level hs ≤ s.entry.range.start := by
  induction hs with
  | nil => cases hsec
  | cons h post ih =>
    rw [openSections, List.dropWhile_cons] at hsec
    split at hsec
    case isTrue hlt =>
      rw [sectionStop_of_lt (of_decide_eq_true hlt)]
      exact ih hh.tail hsec
    case isFalse hge =>
      rw [sectionStop_of_le (by simpa using hge)]
      rcases List.mem_cons.mp hsec with rfl | hsec
      · exact Nat.le_refl _
      · obtain ⟨h', hh', hstart⟩ := exists_of_mem_openSections hsec
        exact hstart ▸ Nat.le_of_lt ((List.pairwise_cons.mp hh.ascending).1 h' hh')

/-- **The ranges of the sections of headings fit their levels.** -/
theorem Headed.ranged_openSections (hh : Headed text hs) : Ranged (openSections text hs) := by
  induction hs with
  | nil => exact .nil
  | cons h post ih =>
    refine .cons hh.nonempty_section (fun s hs => ?_) (fun s hs => ?_) (ih hh.tail)
    · obtain ⟨t, ht, hrange, hne, ⟨h', hh', hstart⟩, hstop⟩ := hh.tail.section_le hs
      have hle := Nat.le_of_lt ((List.pairwise_cons.mp hh.ascending).1 h' hh')
      rw [hrange] at hne ⊢
      exact within_trimSpan ht (hh.inText_section h.level) ⟨hstart ▸ hle, hstop⟩ hne
    · exact Nat.le_trans (trimSpan_stop_le (hh.inText_section h.level)) (hh.tail.le_section hs)

theorem Headed.selected (hh : Headed text hs) :
    ∀ s ∈ openSections text hs, s.entry.selection.Within s.entry.range := by
  induction hs with
  | nil => simp [openSections]
  | cons h post ih => exact List.forall_mem_cons.mpr ⟨hh.within_section, ih hh.tail⟩

theorem children_openSections (text : List Char) (hs : List Heading) :
    ∀ s ∈ openSections text hs, s.children = [] := by
  induction hs with
  | nil => simp [openSections]
  | cons h post ih => exact List.forall_mem_cons.mpr ⟨rfl, ih⟩

theorem map_selection_openSections (text : List Char) (hs : List Heading) :
    (openSections text hs).map (·.entry.selection) = hs.map (·.span) := by
  induction hs with
  | nil => rfl
  | cons h post ih => exact congrArg (h.span :: ·) ih

end

/-- The outline is that of the headings. -/
structure OutlineOf (text : List Char) (hs : List Heading) (ss : List Symbol) : Prop where
  /-- No heading is lost, doubled or moved. -/
  entries : entriesAll ss = (openSections text hs).map (·.entry)
  selections : (entriesAll ss).map (·.selection) = hs.map (·.span)
  /-- Each heading is below the nearest one before it of a smaller level, or at the top if there is none. -/
  parents : parentedAll none ss = nearest [] (openSections text hs)
  nested : ∀ s ∈ ss, s.Nested
  spread : Spread ss
  selected : ∀ e ∈ entriesAll ss, e.selection.Within e.range

/-- **The outline nests the headings by their levels, and the ranges of their sections do the same,** whatever
the levels are. It is the outline of each prose view with these headings. -/
theorem outline_nests_headings {text : List Char} {hs : List Heading} (hh : Headed text hs) :
    OutlineOf text hs (outline text hs) ∧
      ∀ d : VirtualDocument, d.language = .markdown → d.text = text → headings text = hs →
        symbols d = .ok (outline text hs) := by
  have hnew := children_openSections text hs
  have hentries := entriesAll_nest _ hnew
  refine ⟨?_, fun d hlanguage htext hheadings => ?_⟩
  · rw [outline_eq_nest]
    refine ⟨hentries, ?_, ?_, nested_nest hnew hh.ranged_openSections, spread_nest hnew hh.ranged_openSections, ?_⟩
    · rw [hentries, List.map_map]
      exact map_selection_openSections text hs
    · rw [parentedAll_nest none _ hnew, nearest_eq_below]
      rfl
    · rw [hentries, List.forall_mem_map]
      exact hh.selected
  · rw [symbols, expectLanguage, if_pos hlanguage, htext, hheadings]
    rfl

/-- Levels are skipped downwards and upwards, and a blank line stands before a heading. -/
theorem outline_nests_headings_skipped :
    let text := "## a\n#### b\n\n### c\n# d\n".toList
    let hs : List Heading := [⟨2, ['a'], ⟨0, 4⟩⟩, ⟨4, ['b'], ⟨5, 11⟩⟩, ⟨3, ['c'], ⟨13, 18⟩⟩, ⟨1, ['d'], ⟨19, 22⟩⟩]
    Headed text hs ∧ OutlineOf text hs (outline text hs) ∧
      (entriesAll (outline text hs)).map (·.range) = [⟨0, 18⟩, ⟨5, 11⟩, ⟨13, 18⟩, ⟨19, 22⟩] ∧
      (parentedAll none (outline text hs)).map (fun p => p.1.map (·.name)) = [none, some "a", some "a", none] := by
  intro text hs
  have hh : Headed text hs := by
    refine ⟨?_, by decide, by decide, ?_, by decide⟩
    · simp only [hs, List.forall_mem_cons]
      exact ⟨⟨by decide, by decide, by decide, by decide⟩, ⟨by decide, by decide, by decide, by decide⟩,
        ⟨by decide, by decide, by decide, by decide⟩, ⟨by decide, by decide, by decide, by decide⟩, by simp⟩
    · simp only [hs, List.forall_mem_cons]
      exact ⟨⟨'#', by decide, by decide⟩, ⟨'#', by decide, by decide⟩, ⟨'#', by decide, by decide⟩,
        ⟨'#', by decide, by decide⟩, by simp⟩
  obtain ⟨houtline, -⟩ := outline_nests_headings hh
  refine ⟨hh, houtline, ?_, ?_⟩
  · rw [houtline.entries]
    decide
  · rw [houtline.parents]
    decide

end Mdx.MarkdownService

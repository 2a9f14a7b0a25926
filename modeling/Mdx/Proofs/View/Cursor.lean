/-
Cursors in the names of a document. A place in a name goes to the same place of
the name in the script view, and so does the end of the name
(`toGeneratedCursor_of_within`). The byte behind a name may be of another entry
than the name; but it is not of the other region, and a region moves as a whole.

No cursor goes to a name from elsewhere (`origin_of_toGeneratedCursor`): bytes that
meet in the view come from bytes that meet, since the head stands between the
regions. And a name comes from a whole word, since no region stops in a word
(`isRun_origin`).
-/
import Mdx.Proofs.Mapping.Search
import Mdx.Proofs.Regions.Border
import Mdx.Proofs.View.Scaffold

namespace Mdx

open Cursor Script

namespace Mapping

variable {m : Mapping} {e : Entry} {s : Span} {o : Nat}

/-- A source byte of a part of an entry stands in that part. -/
theorem toGenerated_of_part (h : WellFormed m.entries) (he : e ∈ m.entries) (hw : s.Within e.generatedSpan)
    (ho : (e.part s).contains o = true) : m.toGenerated o = some (e.shift o) ∧ s.contains (e.shift o) = true := by
  obtain ⟨hlo, hhi⟩ := hw
  simp only [Entry.generatedSpan, Span.ofLength, Entry.part, Span.contains_iff] at hlo hhi ho
  rw [Span.contains_iff, Entry.shift]
  exact ⟨(toGenerated_eq_some_iff h).mpr ⟨e, he, o - e.source, by omega, by omega, by omega⟩, by omega⟩

/-- Parts of entries without a common byte come from parts of the source without one. -/
theorem disjoint_part (h : WellFormed m.entries) {f : Entry} {t : Span} (he : e ∈ m.entries)
    (hf : f ∈ m.entries) (hs : s.Within e.generatedSpan) (ht : t.Within f.generatedSpan) (hst : s.Disjoint t) :
    (e.part s).Disjoint (f.part t) := by
  rintro o ⟨hso, hto⟩
  obtain ⟨hplace, hs⟩ := toGenerated_of_part h he hs hso
  obtain ⟨hplace', ht⟩ := toGenerated_of_part h hf ht hto
  rw [hplace, Option.some.injEq] at hplace'
  exact hst _ ⟨hs, hplace' ▸ ht⟩

/-- A cursor of the source goes into the generated text. -/
theorem toGeneratedCursor_le {source text : List Char} (h : m.Faithful source text) {g : Nat}
    (hg : m.toGeneratedCursor o = some g) : g ≤ byteLength text := by
  have hend : ∀ e ∈ m.entries, e.generated + e.length ≤ byteLength text := fun e he =>
    (h.copies e he).inText.bounded
  rcases (toGeneratedCursor_eq_some_iff h.wellFormed).mp hg with hbyte | ⟨-, e, he, -, rfl⟩
  · obtain ⟨e, he, i, hi, -, rfl⟩ := (toGenerated_eq_some_iff h.wellFormed).mp hbyte
    have := hend e he
    omega
  · exact hend e he

end Mapping

namespace Script

variable {text : List Char} {s : Span} {ch : Char} {o : Nat}

/-- Before a run stands no identifier character. -/
theorem IsRun.char_before (h : IsRun text s) (hch : Mdx.charAt? text o = some ch) (ho : o + ch.utf8Size = s.start) :
    isIdentifierChar ch = false := by
  obtain ⟨before, inside, a, b, ha, -, rfl, hbefore, -⟩ := h.fenced
  obtain ⟨x, hx, rfl, rest, hrest⟩ := on_of_charAt? hch
  have hp := path_cons hrest
  have hoffset : (x.drop 1).offset = x.offset + ch.utf8Size := by simpa using hp.offset
  obtain rfl : x.drop 1 = a := Reaches.eq_of_offset_eq (hx.reaches hp.reaches) ha.reaches (hoffset.trans ho)
  have hpos := hp.lt (List.cons_ne_nil _ _)
  exact hbefore ch (getLast?_of_char (on_ofText text) ha (ha.ne_nil (Nat.lt_of_le_of_lt (Nat.zero_le _) hpos)) hx hp)

/-- Behind a run stands no identifier character. -/
theorem IsRun.char_behind (h : IsRun text s) (hch : Mdx.charAt? text s.stop = some ch) : isIdentifierChar ch = false := by
  obtain ⟨before, inside, a, b, ha, hab, rfl, -, hbehind⟩ := h.fenced
  obtain ⟨x, hx, hoffset, rest, hrest⟩ := on_of_charAt? hch
  obtain rfl : x = b := Reaches.eq_of_offset_eq hx (ha.trans hab).reaches hoffset
  exact hbehind ch (by rw [hrest]; rfl)

end Script

namespace ScriptView

variable {options : CompileOptions} {source : List Char} {root : Node} {script : VirtualDocument}
  {e : Entry} {s : Span} {x y : Cursor} {ch : Char} {g g' o : Nat} {i : Identifier}

/-- **Behind an identifier character the script view goes on as the document does,** if it goes on at
all. -/
theorem toGenerated_behind (h : ScriptView options source root script) (hx : x.On source) (hp : x.Path [ch] y)
    (hch : isIdentifierChar ch = true) (hg : script.mapping.toGenerated x.offset = some g)
    (hg' : script.mapping.toGenerated y.offset = some g') : g' + x.offset = g + y.offset := by
  have hmodules := code_behind_char h.parsed hx hp hch
  have hcode := modules_behind_char h.parsed hx hp hch
  rw [h.layout.toGenerated] at hg hg'
  split at hg
  · next hin =>
    rw [hmodules hin, if_neg Bool.false_ne_true] at hg'
    split at hg'
    · cases hg
      cases hg'
      omega
    · cases hg'
  · split at hg
    · next hin =>
      rw [hcode hin, if_neg Bool.false_ne_true] at hg'
      split at hg'
      · cases hg
        cases hg'
        omega
      · cases hg'
    · cases hg

/-- **A cursor in a name, or at its end, goes to the same place of the name in the view.** -/
theorem toGeneratedCursor_of_within (h : ScriptView options source root script) (he : e ∈ script.mapping.entries)
    (hs : s.InText script.text) (hne : s.start < s.stop)
    (hchars : ∀ ch ∈ slice script.text s, isIdentifierChar ch = true) (hw : s.Within e.generatedSpan)
    (hlo : (e.part s).start ≤ o) (hhi : o ≤ (e.part s).stop) :
    script.mapping.toGeneratedCursor o = some (e.shift o) := by
  have hwell := h.faithful.wellFormed
  refine (Mapping.toGeneratedCursor_eq_some_iff hwell).mpr ?_
  by_cases hlt : o < (e.part s).stop
  · exact .inl (Mapping.toGenerated_of_part hwell he hw (Span.contains_iff.mpr ⟨hlo, hlt⟩)).1
  obtain rfl : o = (e.part s).stop := by omega
  obtain ⟨hin, hslice⟩ := (h.faithful.copies e he).part hs hw
  obtain ⟨a, b, t, ha, ht, hpart⟩ := hin.path
  rw [← hslice, hpart, ha.slice ht] at hchars
  have hstop : (e.part s).stop = b.offset := congrArg Span.stop hpart
  have hstart : (e.part s).start = a.offset := congrArg Span.start hpart
  have hbounds := hw
  obtain ⟨hlow, hhigh⟩ := hbounds
  simp only [Entry.generatedSpan, Span.ofLength] at hlow hhigh
  have hlength : a.offset < b.offset ∧ b.offset ≤ e.source + e.length ∧ e.source ≤ a.offset := by
    simp only [Entry.part] at hstart hstop
    omega
  rw [hstop]
  cases hbehind : script.mapping.toGenerated b.offset with
  | none =>
    -- The name ends with the entry, since that would hold the byte.
    have hends : b.offset = e.source + e.length := by
      refine Nat.le_antisymm hlength.2.1 (Nat.le_of_not_lt fun hinside => ?_)
      have hplace := (Mapping.toGenerated_eq_some_iff hwell (s := b.offset) (g := e.shift b.offset)).mpr
        ⟨e, he, b.offset - e.source, by omega, by omega, by simp only [Entry.shift]; omega⟩
      cases hbehind.symm.trans hplace
    exact .inr ⟨rfl, e, he, hends, by simp only [Entry.shift]; omega⟩
  | some g' =>
    refine .inl (congrArg some ?_)
    obtain ⟨front, ch, rfl⟩ := exists_last_of_ne_nil (ht.ne_nil hlength.1)
    obtain ⟨hfront, hlast⟩ := ht.at_length
    have hx := ha.reaches hfront.reaches
    have hlt := hlast.lt (List.cons_ne_nil _ _)
    have hle := hfront.le
    obtain ⟨hplace, -⟩ := Mapping.toGenerated_of_part hwell he hw
      (o := (a.drop front.length).offset) (Span.contains_iff.mpr ⟨by omega, by omega⟩)
    have hgo := h.toGenerated_behind hx hlast (hchars ch (by simp)) hplace hbehind
    simp only [Entry.shift] at hgo ⊢
    omega

/-- A mapped byte stands in the shadow of its region. -/
theorem toGenerated_cases (h : ScriptView options source root script) (hg : script.mapping.toGenerated o = some g) :
    o < byteLength source ∧ (g = byteLength (Component.pragma options.checkJs options.jsxImportSource).toList + o ∨
      g = Component.codeStart options.checkJs options.jsxImportSource source + o) := by
  refine ⟨Mapping.toSource_lt h.faithful ((Mapping.toGenerated_eq_some_iff_toSource h.faithful.wellFormed).mp hg), ?_⟩
  rw [h.layout.toGenerated] at hg
  split at hg
  · exact .inl (Option.some.inj hg).symm
  · split at hg
    · exact .inr (Option.some.inj hg).symm
    · cases hg

/-- Bytes that meet in the view come from bytes that meet: the head stands between the shadows. -/
theorem source_succ (h : ScriptView options source root script) {o' : Nat}
    (hg : script.mapping.toGenerated o = some g) (hg' : script.mapping.toGenerated o' = some (g + 1)) : o' = o + 1 := by
  obtain ⟨ho, hcases⟩ := h.toGenerated_cases hg
  obtain ⟨ho', hcases'⟩ := h.toGenerated_cases hg'
  have hstart := Component.codeStart_eq options source (Component.isExported source root)
  rw [Component.headStart] at hstart
  omega

/-- **A cursor that goes into a part of an entry, or to its end, is in what the part comes from.** -/
theorem origin_of_toGeneratedCursor (h : ScriptView options source root script) (he : e ∈ script.mapping.entries)
    (hw : s.Within e.generatedSpan) (hne : s.start < s.stop) (hplace : script.mapping.toGeneratedCursor o = some g)
    (hlo : s.start ≤ g) (hhi : g ≤ s.stop) : o + e.generated = g + e.source := by
  have hwell := h.faithful.wellFormed
  obtain ⟨hstart, hstop⟩ := hw
  simp only [Entry.generatedSpan, Span.ofLength] at hstart hstop
  -- The byte at the place is of the part, or the one before it is.
  have hbyte : ∀ p, s.start ≤ p → p < s.stop → script.mapping.toGenerated (e.source + (p - e.generated)) = some p :=
    fun p hlo hhi => (Mapping.toGenerated_eq_some_iff hwell).mpr ⟨e, he, _, by omega, rfl, by omega⟩
  have hinj : ∀ {o o' p}, script.mapping.toGenerated o = some p → script.mapping.toGenerated o' = some p → o = o' := by
    intro o o' p ho ho'
    rw [Mapping.toGenerated_eq_some_iff_toSource hwell] at ho ho'
    exact Option.some.inj (ho.symm.trans ho')
  have hcursor : script.mapping.toGenerated o = some g ∨ ∃ o' p, o = o' + 1 ∧ g = p + 1 ∧
      script.mapping.toGenerated o' = some p := by
    refine ((Mapping.toGeneratedCursor_eq_some_iff hwell).mp hplace).imp_right ?_
    rintro ⟨-, f, hf, rfl, rfl⟩
    have hpos := hwell.nonempty f hf
    refine ⟨f.source + (f.length - 1), f.generated + (f.length - 1), by omega, by omega, ?_⟩
    exact (Mapping.toGenerated_eq_some_iff hwell).mpr ⟨f, hf, _, by omega, rfl, rfl⟩
  by_cases hlt : g < s.stop
  · have hat := hbyte g hlo hlt
    rcases hcursor with ho | ⟨o', p, rfl, rfl, ho⟩
    · have := hinj ho hat
      omega
    · have := h.source_succ ho hat
      omega
  · obtain ⟨p, rfl⟩ : ∃ p, g = p + 1 := ⟨g - 1, by omega⟩
    have hbefore := hbyte p (by omega) (by omega)
    rcases hcursor with ho | ⟨o', p', rfl, hp, ho⟩
    · have := h.source_succ hbefore ho
      omega
    · obtain rfl : p = p' := by omega
      have := hinj ho hbefore
      omega

/-- Between two identifier characters the view goes on as the document does. -/
theorem toGenerated_between (h : ScriptView options source root script) {z : Cursor} {ch' : Char} (hx : x.On source)
    (hp : x.Path [ch] y) (hq : y.Path [ch'] z) (hch : isIdentifierChar ch = true) (hch' : isIdentifierChar ch' = true) :
    script.mapping.toGenerated y.offset = (script.mapping.toGenerated x.offset).map (· + ch.utf8Size) := by
  have hmodules := contains_modules_iff h.parsed hx hp hq hch hch'
  have hcode := contains_code_iff h.parsed hx hp hq hch hch'
  have hoffset : y.offset = x.offset + ch.utf8Size := by simpa using hp.offset
  simp only [h.layout.toGenerated, hoffset ▸ hmodules, hoffset ▸ hcode, hoffset]
  split
  · rw [Option.map_some, Nat.add_assoc]
  · split
    · rw [Option.map_some, Nat.add_assoc]
    · rfl

/-- A name that comes back is a part of one entry. -/
theorem exists_entry (h : ScriptView options source root script) (hi : i.StandsIn script.text)
    (hs : script.mapping.toSourceSpan i.span = some s) :
    ∃ e ∈ script.mapping.entries, i.span.Within e.generatedSpan ∧ s = e.part i.span := by
  cases identifierPlaced_of_fenced h.faithful h.fenced hi with
  | @mapped e origin he hw =>
    have hpart := Mapping.toSourceSpan_of_within h.faithful.wellFormed he hi.nonempty hw
    exact ⟨e, he, hw, Option.some.inj (hs.symm.trans hpart)⟩
  | unmapped _ hnone => cases hs.symm.trans hnone

section Origin

variable {z : Cursor} {ch' : Char} (h : ScriptView options source root script) (he : e ∈ script.mapping.entries)
  (hw : s.Within e.generatedSpan) (hrun : IsRun script.text s) (hx : x.On source) (hp : x.Path [ch] y)
  (hq : y.Path [ch'] z)
include h he hw hrun hx hp hq

/-- The character before what a run comes from would be mapped too, to the place before the run. -/
theorem char_before_origin (hstart : y.offset = (e.part s).start) (hch' : isIdentifierChar ch' = true) :
    isIdentifierChar ch = false := by
  refine Bool.eq_false_iff.mpr fun hchar => ?_
  have hne := hrun.lt
  have hin := hw.start_le
  simp only [Entry.generatedSpan, Span.ofLength] at hin
  simp only [Entry.part] at hstart
  obtain ⟨hat, -⟩ := Mapping.toGenerated_of_part h.faithful.wellFormed he hw (o := y.offset)
    (Span.contains_iff.mpr ⟨by simp only [Entry.part]; omega, by simp only [Entry.part]; omega⟩)
  rw [h.toGenerated_between hx hp hq hchar hch', Option.map_eq_some_iff] at hat
  obtain ⟨g, hg, hmeets⟩ := hat
  have hcopied := h.faithful.charAt? hg (charAt?_offset hx hp.rest)
  rw [Entry.shift] at hmeets
  rw [hrun.char_before hcopied (by omega)] at hchar
  cases hchar

/-- The character behind what a run comes from would be mapped too, to the place behind the run. -/
theorem char_behind_origin (hlo : (e.part s).start ≤ x.offset) (hstop : y.offset = (e.part s).stop)
    (hch : isIdentifierChar ch = true) : isIdentifierChar ch' = false := by
  refine Bool.eq_false_iff.mpr fun hchar => ?_
  have hlt := hp.lt (List.cons_ne_nil _ _)
  obtain ⟨hat, -⟩ := Mapping.toGenerated_of_part h.faithful.wellFormed he hw
    (Span.contains_iff.mpr ⟨hlo, Nat.lt_of_lt_of_eq hlt hstop⟩)
  have hbehind := h.toGenerated_between hx hp hq hch hchar
  rw [hat, Option.map_some] at hbehind
  have hcopied := h.faithful.charAt? hbehind (charAt?_offset (hx.reaches hp.reaches) hq.rest)
  have hends : e.shift x.offset + ch.utf8Size = s.stop := by
    have hoffset : y.offset = x.offset + ch.utf8Size := by simpa using hp.offset
    have hin := hw.start_le
    have hne := hrun.lt
    simp only [Entry.generatedSpan, Span.ofLength] at hin
    simp only [Entry.part] at hlo hstop
    rw [Entry.shift]
    omega
  rw [hends] at hcopied
  rw [hrun.char_behind hcopied] at hchar
  cases hchar

end Origin

/-- **A name of the view comes from a whole word of the document.** -/
theorem isRun_origin (h : ScriptView options source root script) (hi : i ∈ identifiers script.text)
    (hs : script.mapping.toSourceSpan i.span = some s) : IsRun source s ∧ slice source s = i.name.toList := by
  have hstands := standsIn_identifiers script.text i hi
  have hrun := isRun_of_mem hi
  obtain ⟨e, he, hw, rfl⟩ := h.exists_entry hstands hs
  obtain ⟨hin, hslice⟩ := (h.faithful.copies e he).part hstands.inText hw
  have hname := hslice.trans hstands.slice_eq
  refine ⟨⟨?_, hslice ▸ hrun.chars, hslice ▸ hrun.starts⟩, hname⟩
  obtain ⟨a, b, t, ⟨before, hbefore⟩, ht, hpart⟩ := hin.path
  have ha : On source a := ⟨before, hbefore⟩
  have hchars : ∀ ch ∈ t, isIdentifierChar ch = true := by
    rw [← ha.slice ht, ← hpart, hname]
    exact hstands.chars
  have hne : t ≠ [] := by
    have hstarts := hrun.starts
    rw [← hslice, hpart, ha.slice ht] at hstarts
    intro hnil
    rw [hnil] at hstarts
    cases hstarts
  refine ⟨before, t, a, b, hbefore, ht, hpart, fun ch hch => ?_, fun ch hch => ?_⟩
  · obtain ⟨front, rfl⟩ := List.getLast?_eq_some_iff.mp hch
    obtain ⟨hfront, hp⟩ := hbefore.at_length
    obtain ⟨first, t, rfl⟩ := List.exists_cons_of_ne_nil hne
    have hq := Path.at_length (show a.Path ([first] ++ t) b from ht)
    exact h.char_before_origin he hw hrun ⟨_, hfront⟩ hp hq.1 (congrArg Span.start hpart).symm
      (hchars first (.head _))
  · obtain ⟨rest, hrest⟩ := List.head?_eq_some_iff.mp hch
    obtain ⟨front, last, rfl⟩ := exists_last_of_ne_nil hne
    obtain ⟨hfront, hp⟩ := ht.at_length
    have hlo : (e.part i.span).start ≤ (a.drop front.length).offset := hpart ▸ hfront.le
    exact h.char_behind_origin he hw hrun (ha.reaches hfront.reaches) hp (path_cons hrest) hlo
      (congrArg Span.stop hpart).symm (hchars last (by simp))

end ScriptView

end Mdx

/-
When a statement counts as a default export. The names of a statement are read
one after the other, whatever stands between them, and it counts as one if
`default` is the name after the `export` it begins with, or after some `as`
(`isDefaultExport_iff`).

What a statement exports is told by its syntax, so names are put back among the
punctuation here: a statement is a list of lexemes, and whitespace and comments
are none of them. A default that is given by a word of its own is always found.
One that only keeps its name in a list of exports is found by chance, and names
that are no exports at all can be taken for one.
-/
import Mdx.Component

namespace Mdx

namespace Script

/-! ## Lexemes -/

/-- A part of a statement that is neither whitespace nor a comment. -/
inductive Lexeme where
  /-- An identifier that is no property. -/
  | name (name : String)
  | property (name : String)
  /-- A bracket, a slash, or a character of a word outside identifiers. -/
  | mark (c : Char)
  /-- A string or template, or what is malformed. -/
  | text (cs : List Char)
  deriving DecidableEq, Repr

/-- The name that a lexeme is. -/
def Lexeme.name? : Lexeme → Option String
  | name n => some n
  | _ => none

@[simp] theorem Lexeme.name?_name (n : String) : (name n).name? = some n := rfl
@[simp] theorem Lexeme.name?_property (n : String) : (property n).name? = none := rfl
@[simp] theorem Lexeme.name?_mark (c : Char) : (mark c).name? = none := rfl
@[simp] theorem Lexeme.name?_text (cs : List Char) : (text cs).name? = none := rfl

/-- The lexemes of a word that goes on with these characters, after the character `previous`. -/
def wordLexemes (previous : Option Char) : List Char → List Lexeme
  | [] => []
  | c :: cs =>
    if isIdentifierStart c && !previous.any isIdentifierChar then
      let name := c :: cs.takeWhile isIdentifierChar
      (if previous == some '.' then .property (String.ofList name) else .name (String.ofList name)) ::
        wordLexemes name.getLast? (cs.dropWhile isIdentifierChar)
    else .mark c :: wordLexemes (some c) cs
  termination_by cs => cs.length
  decreasing_by
    · have := (List.dropWhile_sublist isIdentifierChar (l := cs)).length_le
      simp only [List.length_cons]
      omega
    · simp

/-- The lexemes of a token. -/
def Token.lexemes (t : Token) : List Lexeme :=
  if t.kind.isTrivia then []
  else if t.kind = .word then wordLexemes none t.text
  else if t.kind.isString || t.kind = .malformed then [.text t.text]
  else t.text.map .mark

/-- The lexemes of a text. -/
def lexemes (cs : List Char) : List Lexeme := (tokenize cs).flatMap Token.lexemes

/-- The names of a text that are no properties, in order. -/
def names (ids : List Identifier) : List String := (ids.filter (!·.isProperty)).map (·.name)

theorem names_append (is js : List Identifier) : names (is ++ js) = names is ++ names js := by
  simp [names]

theorem names_cons (name : String) (span : Span) (isProperty : Bool) (ids : List Identifier) :
    names (⟨name, span, isProperty⟩ :: ids) = if isProperty then names ids else name :: names ids := by
  cases isProperty <;> rfl

theorem names_wordIdentifiers (base : Nat) (previous : Option Char) (cs : List Char) :
    names (wordIdentifiers base previous cs) = (wordLexemes previous cs).filterMap Lexeme.name? := by
  fun_induction wordIdentifiers base previous cs with
  | case1 => simp [names, wordLexemes]
  | case2 base previous c cs hstart name stop =>
    rename_i ih
    rw [wordLexemes, if_pos hstart, names_cons, ih]
    split
    · rw [List.filterMap_cons_none (Lexeme.name?_property _)]
    · rw [List.filterMap_cons_some (Lexeme.name?_name _)]
  | case3 base previous c cs hstart ih =>
    rw [wordLexemes, if_neg hstart, List.filterMap_cons_none (Lexeme.name?_mark _), ih]

theorem name?_lexemes {t : Token} (h : t.kind ≠ .word) : t.lexemes.filterMap Lexeme.name? = [] := by
  unfold Token.lexemes
  split
  · rfl
  · split
    · rfl
    · simp [List.filterMap_map, Function.comp_def]

/-- The identifiers of a text are the names among its lexemes. -/
theorem names_identifiers (cs : List Char) :
    names (identifiers cs) = (lexemes cs).filterMap Lexeme.name? := by
  have h : ∀ base (ts : List Token), names ((locate base ts).flatMap fun t =>
      if t.kind = .word then wordIdentifiers t.span.start none t.text else []) =
        (ts.flatMap Token.lexemes).filterMap Lexeme.name? := by
    intro base ts
    induction ts generalizing base with
    | nil => rfl
    | cons t ts ih =>
      rw [locate, List.flatMap_cons, List.flatMap_cons, names_append, List.filterMap_append, ih]
      congr 1
      split
      · next hword =>
        have hword : t.kind = .word := hword
        rw [names_wordIdentifiers]
        simp [Token.lexemes, hword, TokenKind.isTrivia]
      · next hword => rw [name?_lexemes hword]; rfl
  exact h 0 (tokenize cs)

/-! ## Exports -/

/-- The parts of an export's list, between its commas and up to its closing brace. -/
def specifiers : List Lexeme → List (List Lexeme)
  | [] => [[]]
  | l :: ls =>
    if l = .mark '\x7d' then [[]]
    else if l = .mark ',' then [] :: specifiers ls
    else
      match specifiers ls with
      | [] => [[l]]
      | part :: parts => (l :: part) :: parts

/-- The parts of the list that a statement exports. -/
def exportList (ls : List Lexeme) : List (List Lexeme) :=
  if [.name "export", .mark '\x7b'] <+: ls then specifiers (ls.drop 2) else []

/-- The statement gives something the name `default`: all that is behind `export default` or
`export * as default`, or a part of its list. -/
def GivesDefault (ls : List Lexeme) : Prop :=
  [.name "export", .name "default"] <+: ls ∨
    [.name "export", .mark '*', .name "as", .name "default"] <+: ls ∨
    ∃ part ∈ exportList ls, part.drop 1 = [.name "as", .name "default"]

/-- A part of the statement's list is exported under its own name `default`. -/
def KeepsDefault (ls : List Lexeme) : Prop := [.name "default"] ∈ exportList ls

/-- The statement exports the name `default`. -/
def ExportsDefault (ls : List Lexeme) : Prop := GivesDefault ls ∨ KeepsDefault ls

instance : DecidablePred GivesDefault := fun _ => inferInstanceAs (Decidable (_ ∨ _ ∨ _))

instance : DecidablePred KeepsDefault := fun ls => inferInstanceAs (Decidable (_ ∈ exportList ls))

instance : DecidablePred ExportsDefault := fun _ => inferInstanceAs (Decidable (_ ∨ _))

/-- The first name is `export`, and `default` is the next one or the one next to some `as`. -/
def ReadsDefault (ls : List Lexeme) : Prop :=
  ∃ before after, ls = before ++ .name "export" :: after ∧ before.filterMap Lexeme.name? = [] ∧
    ((∃ gap back, after = gap ++ .name "default" :: back ∧ gap.filterMap Lexeme.name? = []) ∨
      ∃ front gap back, after = front ++ .name "as" :: (gap ++ .name "default" :: back) ∧
        gap.filterMap Lexeme.name? = [])

theorem adjacent_iff {a b : String} {names : List String} :
    Component.adjacent a b names = true ↔ ∃ front back, names = front ++ a :: b :: back := by
  fun_induction Component.adjacent a b names with
  | case1 x y names ih =>
    rw [Bool.or_eq_true, Bool.and_eq_true, beq_iff_eq, beq_iff_eq, ih]
    constructor
    · rintro (⟨rfl, rfl⟩ | ⟨front, back, h⟩)
      · exact ⟨[], names, rfl⟩
      · exact ⟨x :: front, back, by rw [h]; rfl⟩
    · rintro ⟨front, back, h⟩
      cases front with
      | nil =>
        simp only [List.nil_append, List.cons.injEq] at h
        exact .inl ⟨h.1, h.2.1⟩
      | cons z front =>
        simp only [List.cons_append, List.cons.injEq] at h
        exact .inr ⟨front, back, h.2⟩
  | case2 names hnames =>
    simp only [Bool.false_eq_true, false_iff, not_exists]
    rintro front back rfl
    cases front with
    | nil => exact hnames _ _ _ rfl
    | cons z front =>
      cases front with
      | nil => exact hnames _ _ _ rfl
      | cons w front => exact hnames _ _ _ rfl

/-- The first name of some lexemes, with what is before and behind it. -/
theorem filterMap_name?_eq_cons {ls : List Lexeme} {n : String} {ns : List String} :
    ls.filterMap Lexeme.name? = n :: ns ↔ ∃ gap back, ls = gap ++ .name n :: back ∧
      gap.filterMap Lexeme.name? = [] ∧ back.filterMap Lexeme.name? = ns := by
  rw [List.filterMap_eq_cons_iff]
  constructor
  · rintro ⟨gap, l, back, rfl, hgap, hl, rfl⟩
    cases l with
    | name m =>
      cases hl
      exact ⟨gap, back, rfl, List.filterMap_eq_nil_iff.mpr hgap, rfl⟩
    | _ => cases hl
  · rintro ⟨gap, back, rfl, hgap, rfl⟩
    exact ⟨gap, .name n, back, rfl, List.filterMap_eq_nil_iff.mp hgap, rfl, rfl⟩

/-- The first place of some lexemes where the names `a` and `b` are next to each other. -/
theorem filterMap_name?_eq_append {ls : List Lexeme} {a b : String} {front back : List String}
    (h : ls.filterMap Lexeme.name? = front ++ a :: b :: back) : ∃ before gap after,
      ls = before ++ .name a :: (gap ++ .name b :: after) ∧ gap.filterMap Lexeme.name? = [] := by
  obtain ⟨before, rest, rfl, -, hrest⟩ := List.filterMap_eq_append_iff.mp h
  obtain ⟨lead, rest, rfl, -, hrest⟩ := filterMap_name?_eq_cons.mp hrest
  obtain ⟨gap, after, rfl, hgap, -⟩ := filterMap_name?_eq_cons.mp hrest
  exact ⟨before ++ lead, gap, after, by simp, hgap⟩

/-- The names of a default export. -/
theorem isDefaultExport_iff_names (cs : List Char) : Component.isDefaultExport cs = true ↔
    ∃ rest, names (identifiers cs) = "export" :: rest ∧
      (rest.head? = some "default" ∨ ∃ front back, rest = front ++ "as" :: "default" :: back) := by
  unfold Component.isDefaultExport names
  generalize List.map Identifier.name (List.filter _ (identifiers cs)) = ns
  dsimp only
  split
  · next rest =>
    rw [Bool.or_eq_true, beq_iff_eq, adjacent_iff]
    constructor
    · rintro (h | ⟨front, back, h⟩)
      · exact ⟨rest, rfl, .inl h⟩
      · cases front with
        | nil => exact absurd (List.cons.inj h).1 (by decide)
        | cons n front => exact ⟨rest, rfl, .inr ⟨front, back, (List.cons.inj h).2⟩⟩
    · rintro ⟨rest', h, hdefault | ⟨front, back, rfl⟩⟩
      · cases h
        exact .inl hdefault
      · cases h
        exact .inr ⟨"export" :: front, back, rfl⟩
  · next hns =>
    simp only [Bool.false_eq_true, false_iff, not_exists]
    rintro rest ⟨rfl, -⟩
    exact hns rest rfl

/-- **What counts as a default export**, told by the lexemes: the names are read with whatever stands
between them. -/
theorem isDefaultExport_iff (cs : List Char) :
    Component.isDefaultExport cs = true ↔ ReadsDefault (lexemes cs) := by
  rw [isDefaultExport_iff_names, names_identifiers]
  constructor
  · rintro ⟨rest, hrest, h⟩
    obtain ⟨before, after, hls, hbefore, rfl⟩ := filterMap_name?_eq_cons.mp hrest
    refine ⟨before, after, hls, hbefore, ?_⟩
    rcases h with h | ⟨front, back, h⟩
    · obtain ⟨ns, hns⟩ := List.head?_eq_some_iff.mp h
      obtain ⟨gap, back, hafter, hgap, -⟩ := filterMap_name?_eq_cons.mp hns
      exact .inl ⟨gap, back, hafter, hgap⟩
    · exact .inr (filterMap_name?_eq_append h)
  · rintro ⟨before, after, hls, hbefore, h⟩
    refine ⟨after.filterMap Lexeme.name?, filterMap_name?_eq_cons.mpr ⟨before, after, hls, hbefore, rfl⟩, ?_⟩
    rcases h with ⟨gap, back, rfl, hgap⟩ | ⟨front, gap, back, rfl, hgap⟩
    · left
      rw [List.filterMap_append, hgap, List.nil_append, List.filterMap_cons_some (Lexeme.name?_name _)]
      rfl
    · right
      refine ⟨front.filterMap Lexeme.name?, back.filterMap Lexeme.name?, ?_⟩
      rw [List.filterMap_append, List.filterMap_cons_some (Lexeme.name?_name _), List.filterMap_append, hgap,
        List.nil_append, List.filterMap_cons_some (Lexeme.name?_name _)]

/-- The first part of a list stands at its start, and the others in it. -/
theorem specifiers_eq_cons (ls : List Lexeme) : ∃ part parts, specifiers ls = part :: parts ∧
    part <+: ls ∧ ∀ q ∈ parts, q <:+: ls := by
  induction ls with
  | nil => exact ⟨[], [], rfl, List.prefix_rfl, by simp⟩
  | cons l ls ih =>
    obtain ⟨part, parts, hls, hpart, hparts⟩ := ih
    have hlater : ∀ q ∈ parts, q <:+: l :: ls := fun q hq => (hparts q hq).trans (List.suffix_cons l ls).isInfix
    rw [specifiers, hls]
    split
    · exact ⟨[], [], rfl, List.nil_prefix, by simp⟩
    · split
      · exact ⟨[], part :: parts, rfl, List.nil_prefix,
          List.forall_mem_cons.mpr ⟨hpart.isInfix.trans (List.suffix_cons l ls).isInfix, hlater⟩⟩
      · exact ⟨l :: part, parts, rfl, List.cons_prefix_cons.mpr ⟨rfl, hpart⟩, hlater⟩

theorem infix_of_mem_specifiers {part ls : List Lexeme} (h : part ∈ specifiers ls) : part <:+: ls := by
  obtain ⟨first, parts, hls, hfirst, hparts⟩ := specifiers_eq_cons ls
  rw [hls] at h
  rcases List.mem_cons.mp h with rfl | h
  · exact hfirst.isInfix
  · exact hparts part h

/-- A default that is given by a word of its own is read as one. -/
theorem GivesDefault.reads {ls : List Lexeme} (h : GivesDefault ls) : ReadsDefault ls := by
  rcases h with ⟨back, rfl⟩ | ⟨back, rfl⟩ | ⟨part, hpart, hdrop⟩
  · exact ⟨[], .name "default" :: back, rfl, rfl, .inl ⟨[], back, rfl, rfl⟩⟩
  · exact ⟨[], .mark '*' :: .name "as" :: .name "default" :: back, rfl, rfl,
      .inr ⟨[.mark '*'], [], back, rfl, rfl⟩⟩
  · unfold exportList at hpart
    split at hpart
    · next hopen =>
      obtain ⟨list, rfl⟩ := hopen
      obtain ⟨front, back, hlist⟩ : part <:+: list := infix_of_mem_specifiers hpart
      cases part with
      | nil => cases hdrop
      | cons l part =>
        obtain rfl : part = [.name "as", .name "default"] := hdrop
        refine ⟨[], .mark '\x7b' :: list, rfl, rfl, .inr ⟨.mark '\x7b' :: (front ++ [l]), [], back, ?_, rfl⟩⟩
        rw [← hlist]
        simp
    · cases hpart

end Script

open Script

/-- **A statement counts as a default export by its names alone.** So each that gives something the
name `default` does. One that only keeps that name in its list does by chance, and some that export
no such name do as well: the answer is right exactly if these two cases come together or not at
all, or the name is given. -/
theorem default_export_by_names (statement : List Char) :
    (Component.isDefaultExport statement = true ↔ ReadsDefault (lexemes statement)) ∧
      (GivesDefault (lexemes statement) → Component.isDefaultExport statement = true) ∧
      ((Component.isDefaultExport statement = true ↔ ExportsDefault (lexemes statement)) ↔
        GivesDefault (lexemes statement) ∨
          (ReadsDefault (lexemes statement) ↔ KeepsDefault (lexemes statement))) := by
  have hreads := isDefaultExport_iff statement
  refine ⟨hreads, fun h => hreads.mpr h.reads, ?_⟩
  rw [hreads, ExportsDefault]
  by_cases hgives : GivesDefault (lexemes statement)
  · simp [hgives, hgives.reads]
  · simp [hgives]

/-- Two parts of a list, the second with a comment before the name it is given. -/
theorem default_export_by_names_list :
    let statement := "export \x7ba, b as /* x */ default\x7d from './a.js'".toList
    GivesDefault (lexemes statement) ∧ Component.isDefaultExport statement = true := by
  intro statement
  have h : GivesDefault (lexemes statement) := by decide +kernel
  exact ⟨h, (default_export_by_names statement).2.1 h⟩

/-- A default that is exported under another name and two keys of an object count as one, and a name
in a list does not. -/
theorem default_export_misread :
    let renamed := "export \x7bdefault as X\x7d from './x.js'".toList
    let keys := "export const x = \x7bas: 1, default: 2\x7d".toList
    let kept := "export \x7ba, default\x7d from './x.js'".toList
    (Component.isDefaultExport renamed = true ∧ ¬ ExportsDefault (lexemes renamed)) ∧
      (Component.isDefaultExport keys = true ∧ ¬ ExportsDefault (lexemes keys)) ∧
      Component.isDefaultExport kept = false ∧ ExportsDefault (lexemes kept) := by
  decide +kernel

end Mdx

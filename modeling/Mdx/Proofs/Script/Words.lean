/-
The index of identifiers against the words of a text. Each word is read by
itself, so the identifiers of a word are those runs of identifier characters
that are whole in it and can start with their first character (`IsWordRun`).
They come in the order of their places, and something is between any two of
them, so an offset is in or at an end of one at most.
-/
import Mdx.Proofs.Script.Embedded

namespace Mdx.Script

open Cursor

variable {text word : List Char} {s : Span} {n : Nat}

/-- The identifier `n` bytes further on. -/
def Identifier.moved (n : Nat) (i : Identifier) : Identifier := { i with span := i.span.moved n }

/-- A word has the same identifiers wherever it stands. -/
theorem wordIdentifiers_add (n base : Nat) (previous : Option Char) (cs : List Char) :
    wordIdentifiers (n + base) previous cs = (wordIdentifiers base previous cs).map (Identifier.moved n) := by
  fun_induction wordIdentifiers base previous cs with
  | case1 => rw [wordIdentifiers, List.map_nil]
  | case2 base previous c cs hstart name stop ih =>
    have hstop : n + base + byteLength name = n + stop := Nat.add_assoc n base _
    rw [wordIdentifiers, if_pos hstart, List.map_cons, ← ih]
    simp only [Identifier.moved, Span.moved]
    rw [← hstop]
  | case3 base previous c cs hstart ih =>
    rw [wordIdentifiers, if_neg hstart, ← ih, Nat.add_assoc]

/-- The end of a text cuts no run of it. -/
theorem apart_ofEnd (text : List Char) : Apart text (ofEnd text) where
  on := ⟨text, path_ofEnd text⟩
  apart _ _ _ _ _ hch := by cases hch

/-- The identifiers of a word are its runs. -/
theorem exists_wordIdentifiers_iff_isRun :
    (∃ i ∈ wordIdentifiers n none word, i.span = s) ↔ ∃ r, IsRun word r ∧ s = r.moved n := by
  have hword : ∀ r, (∃ i ∈ wordIdentifiers 0 none word, i.span = r) ↔ IsRun word r := by
    intro r
    have hiff := exists_wordIdentifiers_iff (s := r) (on_ofText word) (path_ofEnd word) (apart_ofEnd word)
      (apart_ofText word).looksBack
    refine hiff.trans ⟨fun h => h.1, fun h => ⟨h, Nat.zero_le _, ?_⟩⟩
    exact Nat.lt_of_lt_of_le h.lt h.inText.bounded
  have hmoved := wordIdentifiers_add n 0 none word
  rw [Nat.add_zero] at hmoved
  simp only [hmoved, List.mem_map, exists_exists_and_eq_and]
  constructor
  · rintro ⟨i, hi, rfl⟩
    exact ⟨i.span, (hword _).mp ⟨i, hi, rfl⟩, rfl⟩
  · rintro ⟨r, hr, rfl⟩
    obtain ⟨i, hi, rfl⟩ := (hword r).mpr hr
    exact ⟨i, hi, rfl⟩

/-- A letter or a digit of any script, `_` or `$`. -/
def IsNameChar (c : Char) : Prop := isAlphanumeric c = true ∨ c = '_' ∨ c = '$'

/-- A letter of any script, `_` or `$`. -/
def IsNameStart (c : Char) : Prop := isAlphabetic c = true ∨ c = '_' ∨ c = '$'

theorem isNameChar_iff {c : Char} : IsNameChar c ↔ isIdentifierChar c = true := by
  simp [IsNameChar, isIdentifierChar, or_assoc]

theorem isNameStart_iff {c : Char} : IsNameStart c ↔ isIdentifierStart c = true := by
  simp [IsNameStart, isIdentifierStart, or_assoc]

/-- The span is a whole run of name characters inside a word of the text, and a name can start with its first
character. -/
def IsWordRun (text : List Char) (s : Span) : Prop :=
  ∃ word ∈ locate 0 (tokenize text), word.kind = .word ∧ ∃ front name back, word.text = front ++ name ++ back ∧
    s = ⟨word.span.start + byteLength front, word.span.start + (byteLength front + byteLength name)⟩ ∧
    (∀ ch ∈ front.getLast?, ¬ IsNameChar ch) ∧ (∀ ch ∈ back.head?, ¬ IsNameChar ch) ∧
    (∃ ch ∈ name.head?, IsNameStart ch) ∧ ∀ ch ∈ name, IsNameChar ch

theorem isWordRun_iff : IsWordRun text s ↔ ∃ word ∈ locate 0 (tokenize text), word.kind = .word ∧
    ∃ r, IsRun word.text r ∧ s = r.moved word.span.start := by
  have hnone : ∀ {o : Option Char}, (∀ ch ∈ o, ¬ isIdentifierChar ch = true) ↔ o.any isIdentifierChar = false := by
    intro o
    cases o <;> simp
  have hstart : ∀ {o : Option Char}, (∃ ch ∈ o, isIdentifierStart ch = true) ↔ o.any isIdentifierStart = true := by
    intro o
    cases o <;> simp
  simp only [IsWordRun, isRun_iff_append, isNameChar_iff, isNameStart_iff, hnone, hstart]
  refine exists_congr fun word => and_congr_right fun _ => and_congr_right fun _ => ⟨?_, ?_⟩
  · rintro ⟨front, name, back, htext, rfl, hrun⟩
    exact ⟨_, ⟨front, name, back, htext, rfl, hrun⟩, rfl⟩
  · rintro ⟨_, ⟨front, name, back, htext, rfl, hrun⟩, rfl⟩
    exact ⟨front, name, back, htext, rfl, hrun⟩

theorem exists_identifier_iff_isWordRun : (∃ i ∈ identifiers text, i.span = s) ↔ IsWordRun text s := by
  simp only [identifiers, List.mem_flatMap, isWordRun_iff]
  constructor
  · rintro ⟨i, ⟨word, hword, hi⟩, hspan⟩
    split at hi
    · next hkind => exact ⟨word, hword, hkind, exists_wordIdentifiers_iff_isRun.mp ⟨i, hi, hspan⟩⟩
    · cases hi
  · rintro ⟨word, hword, hkind, hrun⟩
    obtain ⟨i, hi, hspan⟩ := exists_wordIdentifiers_iff_isRun.mpr hrun
    exact ⟨i, ⟨word, hword, by rwa [if_pos hkind]⟩, hspan⟩

/-- The list has the identifiers of the text, in order: one for each run inside a word, and no other. -/
structure Indexes (text : List Char) (found : List Identifier) : Prop where
  runs : ∀ s, (∃ i ∈ found, i.span = s) ↔ IsWordRun text s
  /-- No end of a word cuts a run. -/
  whole : ∀ i ∈ found, IsRun text i.span
  inText : ∀ i ∈ found, i.span.InText text
  name : ∀ i ∈ found, i.name.toList = slice text i.span
  /-- The order is strict, so that no two identifiers touch. -/
  ascending : found.Pairwise fun i j => i.span.stop < j.span.start
  alone : ∀ o, ∀ i ∈ found, ∀ j ∈ found, i.span.start ≤ o ∧ o ≤ i.span.stop →
    j.span.start ≤ o ∧ o ≤ j.span.stop → i = j

/-- **The identifiers of a text are the runs inside its words.** -/
theorem identifiers_index_runs (text : List Char) : Indexes text (identifiers text) where
  runs _ := exists_identifier_iff_isWordRun
  whole _ hi := isRun_of_mem hi
  inText i hi := (standsIn_identifiers text i hi).inText
  name i hi := (standsIn_identifiers text i hi).slice_eq.symm
  ascending := identifiers_pairwise text
  alone _ _ hi _ hj hio hjo := identifier_eq_of_touching hi hj hio hjo

/-- No part of a run that starts with a digit is an identifier. -/
example : (identifiers "x1 = 42px + a.b".toList).map Identifier.name = ["x1", "a", "b"] := by decide +kernel

end Mdx.Script

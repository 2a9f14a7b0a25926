/-
Outlines as trees. The entries of an outline are listed each before those below it,
alone or with the entry that they are below. An outline is nested if no entry leaves
the one around it, and spread if the entries below one follow each other.
-/
import Mdx.Proofs.Text.Span
import Mdx.Service.Basic

namespace Mdx

mutual

/-- The entry and those below it, each before those below it. -/
def Symbol.entries : Symbol → List SymbolEntry
  | .mk e children => e :: entriesAll children

/-- The entries of outlines one after the other. -/
def entriesAll : List Symbol → List SymbolEntry
  | [] => []
  | s :: ss => s.entries ++ entriesAll ss

end

mutual

/-- The entry and those below it, each before those below it, with the entry that it is below. -/
def Symbol.parented (above : Option SymbolEntry) : Symbol → List (Option SymbolEntry × SymbolEntry)
  | .mk e children => (above, e) :: parentedAll (some e) children

/-- The entries of outlines that are below the same entry, each with the one that it is below. -/
def parentedAll (above : Option SymbolEntry) : List Symbol → List (Option SymbolEntry × SymbolEntry)
  | [] => []
  | s :: ss => s.parented above ++ parentedAll above ss

end

/-- The entries next to each other, at the top and below each entry, have ranges that follow each other. -/
inductive Spread : List Symbol → Prop
  | mk {ss : List Symbol} : ss.Pairwise (fun s t => s.entry.range.stop ≤ t.entry.range.start) →
    (∀ s ∈ ss, Spread s.children) → Spread ss

/-- No range is empty, and each range lies in that of the entry around it. -/
inductive Symbol.Nested : Symbol → Prop
  | mk {e : SymbolEntry} {children : List Symbol} : e.range.start < e.range.stop →
    (∀ c ∈ children, c.entry.range.Within e.range) → (∀ c ∈ children, c.Nested) → Nested (.mk e children)

theorem mem_entriesAll {ss : List Symbol} {e : SymbolEntry} : e ∈ entriesAll ss ↔ ∃ s ∈ ss, e ∈ s.entries := by
  induction ss with
  | nil => simp [entriesAll]
  | cons s ss ih => simp [entriesAll, ih]

theorem entriesAll_append (ss ts : List Symbol) : entriesAll (ss ++ ts) = entriesAll ss ++ entriesAll ts := by
  induction ss with
  | nil => rw [List.nil_append, entriesAll, List.nil_append]
  | cons s ss ih => rw [List.cons_append, entriesAll, ih, entriesAll, List.append_assoc]

mutual

theorem Symbol.map_parented (above : Option SymbolEntry) :
    ∀ s : Symbol, (s.parented above).map Prod.snd = s.entries
  | .mk e children => by
    rw [Symbol.parented, List.map_cons, map_parentedAll (some e) children, Symbol.entries]

/-- The entries with those above them are the entries, in the same order. -/
theorem map_parentedAll (above : Option SymbolEntry) :
    ∀ ss : List Symbol, (parentedAll above ss).map Prod.snd = entriesAll ss
  | [] => by rw [parentedAll, List.map_nil, entriesAll]
  | s :: ss => by
    rw [parentedAll, List.map_append, s.map_parented above, map_parentedAll above ss, entriesAll]

end

/-- All entries of a nested outline lie in the range of its first one. -/
theorem Symbol.Nested.within {s : Symbol} (h : s.Nested) : ∀ e ∈ s.entries, e.range.Within s.entry.range := by
  induction h with
  | @mk e children _ hchildren _ ih =>
    intro e' he'
    rw [Symbol.entries, List.mem_cons] at he'
    rcases he' with rfl | he'
    · exact .refl _
    · obtain ⟨c, hc, he'⟩ := mem_entriesAll.mp he'
      exact (ih c hc e' he').trans (hchildren c hc)

end Mdx

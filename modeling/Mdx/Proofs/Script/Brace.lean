/-
The brace that closes an expression: it is a place of the text behind the open
brace, and a closing brace stands there.
-/
import Mdx.Proofs.Script.Token
import Mdx.Proofs.Text.Place
import Mdx.Script.Brace

namespace Mdx

/-- A reader that goes on has read its first part. -/
theorem ok_of_bind {ε α β : Type} {x : Except ε α} {f : α → Except ε β} {b : β}
    (h : x >>= f = .ok b) : ∃ a, x = .ok a ∧ f a = .ok b := by
  match x, h with
  | .ok a, h => exact ⟨a, rfl, h⟩

theorem ok_of_toOption {ε α : Type} {x : Except ε α} {a : α} (h : x.toOption = some a) : x = .ok a := by
  cases x with
  | error e => cases h
  | ok b =>
    cases h
    rfl

/-- The error of a reader that fails. -/
def failure? {ε α : Type} : Except ε α → Option ε
  | .error e => some e
  | .ok _ => none

theorem error_of_failure? {ε α : Type} {x : Except ε α} {e : ε} (h : failure? x = some e) :
    x = .error e := by
  cases x with
  | error e' =>
    cases h
    rfl
  | ok a => cases h

theorem exists_ok {ε α : Type} {x : Except ε α} (h : x.toOption.isSome = true) : ∃ a, x = .ok a := by
  cases x with
  | error e => cases h
  | ok a => exact ⟨a, rfl⟩

end Mdx

namespace Mdx.Script

/-- Where a scan stops: what it has passed over, and the kind of token that stands there. -/
def stopOf : Except BraceFailure (List Char × Bool) → Option (List Char × TokenKind)
  | .ok (before, _) => some (before, .closeBrace)
  | .error (.malformed before) => some (before, .malformed)
  | .error .unclosed => none

/-- A scan that goes on behind a token stops where the scan behind it does. -/
theorem stopOf_behind (t : Token) (found : Except BraceFailure (List Char × Bool)) :
    stopOf (match found with
      | .ok (before, e) => .ok (t.text ++ before, e)
      | .error (.malformed before) => .error (.malformed (t.text ++ before))
      | .error .unclosed => .error .unclosed) =
      (stopOf found).map fun (before, kind) => (t.text ++ before, kind) := by
  split <;> rfl

/-- A scan stops at a token of that kind, behind the text of the tokens before it. -/
theorem scanBrace_stop {depth : Nat} {isEmpty : Bool} {ts : List Token} {before : List Char} {kind : TokenKind}
    (h : stopOf (scanBrace depth isEmpty ts) = some (before, kind)) :
    ∃ front t back, ts = front ++ t :: back ∧ t.kind = kind ∧ before = front.flatMap Token.text := by
  induction ts generalizing depth isEmpty before with
  | nil => simp [scanBrace, stopOf] at h
  | cons t ts ih =>
    have later : ∀ {depth isEmpty},
        (stopOf (scanBrace depth isEmpty ts)).map (fun (before, kind) => (t.text ++ before, kind)) =
          some (before, kind) →
        ∃ front t' back, t :: ts = front ++ t' :: back ∧ t'.kind = kind ∧
          before = front.flatMap Token.text := by
      intro depth isEmpty hs
      obtain ⟨⟨rest, kind'⟩, hrest, heq⟩ := Option.map_eq_some_iff.mp hs
      cases heq
      obtain ⟨front, t', back, rfl, hk, rfl⟩ := ih hrest
      exact ⟨t :: front, t', back, rfl, hk, rfl⟩
    simp only [scanBrace] at h
    split at h
    · exact later ((stopOf_behind t _).symm.trans h)
    · next hk =>
      split at h
      · cases h
        exact ⟨[], t, ts, rfl, hk, rfl⟩
      · exact later ((stopOf_behind t _).symm.trans h)
    · next hk =>
      cases h
      exact ⟨[], t, ts, rfl, hk, rfl⟩
    · exact later ((stopOf_behind t _).symm.trans h)

/-- The place where a scan of the text at a cursor stops, and the token there. -/
theorem path_scanBrace {c : Cursor} {depth : Nat} {isEmpty : Bool} {before : List Char} {kind : TokenKind}
    (h : stopOf (scanBrace depth isEmpty (tokenize c.rest)) = some (before, kind)) :
    ∃ t ∈ tokenize c.rest, t.kind = kind ∧ c.Path before (c.drop before.length) ∧
      ∃ rest, (c.drop before.length).rest = t.text ++ rest := by
  obtain ⟨front, t, back, hts, hk, rfl⟩ := scanBrace_stop h
  have hcs := tokenize_flatMap_text c.rest
  rw [hts, List.flatMap_append, List.flatMap_cons] at hcs
  refine ⟨t, by rw [hts]; simp, hk, ?_, back.flatMap Token.text, ?_⟩
  · have hp := Cursor.path_drop c (front.flatMap Token.text).length
    rwa [← hcs, List.take_left] at hp
  · rw [Cursor.rest_drop, ← hcs, List.drop_left]

/-- The closing brace of an expression is a closing brace behind its open one. -/
theorem path_closingBrace {c : Cursor} {close : ClosingBrace} (h : closingBrace c = .ok close) :
    ∃ before rest, c.Path before close.place ∧ close.place.rest = '\x7d' :: rest := by
  unfold closingBrace at h
  split at h
  · next before isEmpty hs =>
    simp only [Except.ok.injEq] at h
    subst h
    obtain ⟨t, hmem, hk, hp, rest, hrest⟩ := path_scanBrace (congrArg stopOf hs)
    rw [text_of_mem_tokenize hmem hk] at hrest
    exact ⟨before, rest, hp, hrest⟩
  · cases h
  · cases h

/-- An expression is an open brace, its body and a closing brace. -/
theorem closingBrace_body {c : Cursor} {close : ClosingBrace} {rest : List Char}
    (h : closingBrace c = .ok close) (hc : c.rest = '\x7b' :: rest) :
    ∃ body, (c.drop 1).Path body close.place ∧ close.place.Path ['\x7d'] (close.place.drop 1) ∧
      c.Path ('\x7b' :: body ++ ['\x7d']) (close.place.drop 1) := by
  obtain ⟨before, rest', hp, hr⟩ := path_closingBrace h
  have hclose := Cursor.path_cons hr
  have hopen := Cursor.path_cons hc
  -- The path to the closing brace is not empty: another character stands at its start.
  have hne : before ≠ [] := by
    rintro rfl
    have := hp.rest
    rw [hc, hr] at this
    simp at this
  have hle : (c.drop 1).offset ≤ close.place.offset := by
    obtain ⟨ch, before, rfl⟩ := List.exists_cons_of_ne_nil hne
    have hch : ch = '\x7b' := by
      have := hp.rest
      rw [hc] at this
      simp only [List.cons_append, List.cons.injEq] at this
      exact this.1.symm
    subst hch
    rw [hopen.offset, hp.offset]
    simp only [byteLength_cons, byteLength_nil]
    omega
  obtain ⟨body, rfl, hbody⟩ := hopen.split hp hle
  exact ⟨body, hbody, hclose, hp.trans hclose⟩

end Mdx.Script

/-
Tokens tile a text: the first token is the start of the text, so the texts of
all tokens one after the other are the text itself, and a token that is located
stands where its span says (`path_of_mem_locate`).
-/
import Mdx.Proofs.Text.Line
import Mdx.Script.Token

namespace Mdx.Script

theorem splitItems_append (q : Char) (multiline : Bool) (cs : List Char) :
    (splitItems q multiline cs).1 ++ (splitItems q multiline cs).2 = cs := by
  fun_induction splitItems q multiline cs with
  | case1 => rfl
  | case2 => rfl
  | case3 => rfl
  | case4 d cs _ a b hab ih =>
    rw [hab] at ih
    simp [ih]
  | case5 => rfl
  | case6 c cs _ _ _ a b hab ih =>
    rw [hab] at ih
    simp [ih]

theorem splitComment?_append {cs a b : List Char} (h : splitComment? cs = some (a, b)) : a ++ b = cs := by
  fun_induction splitComment? cs generalizing a with
  | case1 => simp at h
  | case2 cs =>
    simp only [Option.some.injEq, Prod.mk.injEq] at h
    obtain ⟨rfl, rfl⟩ := h
    rfl
  | case3 c cs _ ih =>
    simp only [Option.map_eq_some_iff, Prod.mk.injEq, Prod.exists] at h
    obtain ⟨a', b', h', rfl, rfl⟩ := h
    rw [List.cons_append, ih h']

theorem quotedToken_prefix (kind : TokenKind) (q : Char) (cs : List Char) :
    (quotedToken kind q cs).text <+: q :: cs := by
  have happ := splitItems_append q (kind == .template) cs
  unfold quotedToken
  generalize splitItems q (kind == .template) cs = items at happ
  obtain ⟨items, rest⟩ := items
  simp only at happ ⊢
  split
  · next hq =>
    obtain ⟨rest', rfl⟩ := List.head?_eq_some_iff.mp (beq_iff_eq.mp hq)
    exact ⟨rest', by simp [← happ]⟩
  · exact ⟨rest, by simp [← happ]⟩

theorem slashToken_prefix (cs : List Char) : (slashToken cs).text <+: '/' :: cs := by
  unfold slashToken
  split
  · next cs =>
    simp only [List.cons_prefix_cons, true_and]
    exact List.takeWhile_prefix _
  · next cs =>
    split
    · next body rest h => exact ⟨rest, by simp [splitComment?_append h]⟩
    · exact ⟨cs, rfl⟩
  · exact ⟨cs, rfl⟩

/-- The first token of a text is its start. -/
theorem firstToken_prefix (c : Char) (cs : List Char) : (firstToken c cs).text <+: c :: cs := by
  unfold firstToken
  split
  · exact ⟨cs, rfl⟩
  · exact quotedToken_prefix _ c cs
  · split
    · next hc =>
      rw [beq_iff_eq.mp hc]
      exact slashToken_prefix cs
    · split
      all_goals
        simp only [List.cons_prefix_cons, true_and]
        exact List.takeWhile_prefix _

/-- The tokens of a text, one after the other, are the text. -/
theorem tokenize_flatMap_text (cs : List Char) : (tokenize cs).flatMap Token.text = cs := by
  fun_induction tokenize cs with
  | case1 => rfl
  | case2 c cs token ih =>
    rw [List.flatMap_cons, ih]
    obtain ⟨rest, hrest⟩ := firstToken_prefix c cs
    rw [← hrest, List.drop_left]

theorem quotedToken_kind (kind : TokenKind) (q : Char) (cs : List Char) :
    (quotedToken kind q cs).kind = kind ∨ (quotedToken kind q cs).kind = .malformed := by
  unfold quotedToken
  split
  split
  · exact .inl rfl
  · exact .inr rfl

theorem slashToken_kind_ne (cs : List Char) : (slashToken cs).kind ≠ .closeBrace := by
  unfold slashToken
  split
  · simp
  · split <;> simp
  · simp

theorem quote?_ne_closeBrace (c : Char) : quote? c ≠ some .closeBrace := by
  unfold quote?
  split <;> simp

theorem bracket?_eq_closeBrace {c : Char} (h : bracket? c = some .closeBrace) : c = '\x7d' := by
  unfold bracket? at h
  split at h <;> simp_all

/-- Only a closing brace is a token of that kind. -/
theorem firstToken_closeBrace {c : Char} {cs : List Char} (h : (firstToken c cs).kind = .closeBrace) :
    (firstToken c cs).text = ['\x7d'] := by
  unfold firstToken at h ⊢
  split at h
  · next kind hk =>
    have hkind : kind = .closeBrace := h
    subst hkind
    rw [bracket?_eq_closeBrace hk]
  · next kind _ hq =>
    rcases quotedToken_kind kind c cs with hk | hk
    · rw [hk] at h
      exact absurd (h ▸ hq) (quote?_ne_closeBrace c)
    · rw [hk] at h
      cases h
  · split at h
    · exact absurd h (slashToken_kind_ne cs)
    · split at h <;> cases h

theorem text_of_mem_tokenize {cs : List Char} {t : Token} (h : t ∈ tokenize cs)
    (hk : t.kind = .closeBrace) : t.text = ['\x7d'] := by
  fun_induction tokenize cs with
  | case1 => cases h
  | case2 c cs token ih =>
    rw [List.mem_cons] at h
    rcases h with rfl | h
    · exact firstToken_closeBrace hk
    · exact ih h

theorem text_ne_nil_of_mem_tokenize {cs : List Char} {t : Token} (h : t ∈ tokenize cs) : t.text ≠ [] := by
  fun_induction tokenize cs with
  | case1 => cases h
  | case2 c cs token ih =>
    rcases List.mem_cons.mp h with rfl | h
    · exact firstToken_text_ne_nil c cs
    · exact ih h

/-! ## Places -/

theorem exists_token_of_mem_locate {ts : List Token} {base : Nat} {t : Located} (h : t ∈ locate base ts) :
    ∃ token ∈ ts, t.text = token.text := by
  induction ts generalizing base with
  | nil => cases h
  | cons token ts ih =>
    rcases List.mem_cons.mp h with rfl | h
    · exact ⟨token, by simp, rfl⟩
    · obtain ⟨found, hmem, htext⟩ := ih h
      exact ⟨found, List.mem_cons_of_mem _ hmem, htext⟩

/-- A token stands between two places of the text that the tokens were read from. -/
theorem path_of_mem_locate {ts : List Token} {c d : Cursor} (h : c.Path (ts.flatMap Token.text) d)
    {t : Located} (ht : t ∈ locate c.offset ts) :
    ∃ a b, c.Reaches a ∧ a.Path t.text b ∧ t.span = a.spanTo b.offset := by
  induction ts generalizing c with
  | nil => cases ht
  | cons token ts ih =>
    obtain ⟨hfirst, hrest⟩ := Cursor.Path.at_length h
    rw [locate, ← hfirst.offset] at ht
    rcases List.mem_cons.mp ht with rfl | ht
    · exact ⟨c, _, .refl c, hfirst, rfl⟩
    · obtain ⟨a, b, ha, hab, hspan⟩ := ih hrest ht
      exact ⟨a, b, hfirst.reaches.trans ha, hab, hspan⟩

end Mdx.Script

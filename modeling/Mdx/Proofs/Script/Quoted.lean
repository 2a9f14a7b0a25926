/-
Quoted texts in script. A text between two quotes is one string exactly if it has
no line feed in it and the second quote is not escaped (`IsStringBody`). Behind a
sealed text it is then a token of its own (`mem_locate_string_iff`), and no
identifier has a byte in common with such a token (`disjoint_of_string`).
-/
import Mdx.Proofs.Script.Sealed
import Mdx.Proofs.Text.Span
import Mdx.Script.Identifier
import Mathlib.Data.List.Pairwise

namespace Mdx.Script

/-- Between two quotes this is a string: it has no line feed, and an even number of backslashes at its
end, so that the second quote is not escaped. -/
def IsStringBody (body : List Char) : Prop :=
  '\n' ∉ body ∧ (body.reverse.takeWhile (· == '\\')).length % 2 = 0

instance (body : List Char) : Decidable (IsStringBody body) :=
  inferInstanceAs (Decidable (_ ∧ _))

theorem isStringBody_append {front : List Char} (hfront : IsStringBody front) (back : List Char) :
    IsStringBody (front ++ back) ↔ IsStringBody back := by
  obtain ⟨hfeed, heven⟩ := hfront
  simp only [IsStringBody, List.mem_append, hfeed, false_or, List.reverse_append, List.takeWhile_append,
    List.length_reverse]
  refine and_congr_right fun _ => ?_
  split
  · next hall =>
    rw [List.length_append, List.length_reverse, hall]
    omega
  · rfl

theorem isStringBody_escape {d : Char} (hd : d ≠ '\n') : IsStringBody ['\\', d] := by
  refine ⟨by simp [hd.symm], ?_⟩
  by_cases hslash : d = '\\' <;> simp [hslash]

theorem isStringBody_other {c : Char} (hslash : c ≠ '\\') (hfeed : c ≠ '\n') : IsStringBody [c] :=
  ⟨by simp [hfeed.symm], by simp [hslash]⟩

theorem ne_backslash {c : Char} {cs : List Char} (hlone : c = '\\' → cs = [] → False)
    (hpair : ∀ d cs', c = '\\' → cs = d :: cs' → False) : c ≠ '\\' := by
  rintro rfl
  cases cs with
  | nil => exact hlone rfl rfl
  | cons d cs => exact hpair d cs rfl rfl

/-- The items that are read before a quote are the body of a string. -/
theorem isStringBody_of_splitItems {q : Char} {cs items rest : List Char} (hq : q ≠ '\\')
    (h : splitItems q false cs = (items, q :: rest)) : IsStringBody items := by
  fun_induction splitItems q false cs generalizing items with
  | case1 => simp at h
  | case2 =>
    simp only [Prod.mk.injEq, List.cons.injEq] at h
    exact absurd h.2.1.symm hq
  | case3 =>
    simp only [Prod.mk.injEq, List.cons.injEq] at h
    exact absurd h.2.1.symm hq
  | case4 d cs hd a b hab ih =>
    simp only [Prod.mk.injEq] at h
    obtain ⟨rfl, rfl⟩ := h
    exact (isStringBody_append (isStringBody_escape (by simpa using hd)) a).mpr (ih hab)
  | case5 c cs => 
    simp only [Prod.mk.injEq] at h
    obtain ⟨rfl, -⟩ := h
    decide
  | case6 c cs hlone hpair hc a b hab ih =>
    simp only [Prod.mk.injEq] at h
    obtain ⟨rfl, rfl⟩ := h
    have hother : IsStringBody [c] :=
      isStringBody_other (ne_backslash hlone hpair) fun hfeed => hc (by simp [hfeed])
    exact (isStringBody_append hother a).mpr (ih hab)

/-- The body of a string is read up to the quote. -/
theorem splitItems_of_isStringBody {q : Char} {body : List Char} (hq : q ≠ '\\') (hbody : q ∉ body)
    (h : IsStringBody body) (rest : List Char) :
    splitItems q false (body ++ q :: rest) = (body, q :: rest) := by
  fun_induction splitItems q false body with
  | case1 =>
    rw [List.nil_append, splitItems_cons hq]
    simp
  | case2 => exact absurd h (by decide)
  | case3 d cs hd =>
    have hfeed : d = '\n' := by simpa using hd
    exact absurd (show '\n' ∈ '\\' :: d :: cs by simp [hfeed]) h.1
  | case4 d cs hd a b hab ih =>
    have hbody' : q ∉ cs := fun hmem => hbody (by simp [hmem])
    have hcs := (isStringBody_append (isStringBody_escape (by simpa using hd)) cs).mp h
    have ih := ih hbody' hcs
    simp only [List.cons_append, splitItems, hd, Bool.false_eq_true, if_false, ih]
  | case5 c cs hlone hpair hc =>
    rw [Bool.or_eq_true, beq_iff_eq] at hc
    rcases hc with rfl | hfeed
    · exact absurd List.mem_cons_self hbody
    · exact absurd (show '\n' ∈ c :: cs by simp_all) h.1
  | case6 c cs hlone hpair hc a b hab ih =>
    have hslash := ne_backslash hlone hpair
    have hother : IsStringBody [c] := isStringBody_other hslash fun hfeed => hc (by simp [hfeed])
    have ih := ih (fun hmem => hbody (by simp [hmem])) ((isStringBody_append hother cs).mp h)
    rw [List.cons_append, splitItems_cons hslash, if_neg hc, ih]

/-- The marks that a string on one line stands between. -/
def IsQuoteMark (q : Char) : Prop := q = '\x22' ∨ q = '\x27'

variable {q : Char} {body : List Char}

theorem IsQuoteMark.kind (h : IsQuoteMark q) : ∃ kind, bracket? q = none ∧ quote? q = some kind ∧
    (kind == .template) = false := by
  rcases h with rfl | rfl
  · exact ⟨.doubleQuoted, rfl, rfl, rfl⟩
  · exact ⟨.singleQuoted, rfl, rfl, rfl⟩

theorem IsQuoteMark.utf8Size_eq (h : IsQuoteMark q) : q.utf8Size = 1 := by
  rcases h with rfl | rfl <;> decide

/-- A body between quotes is one token, whatever is behind it. -/
theorem firstToken_string (hq : IsQuoteMark q) (hbody : q ∉ body) (h : IsStringBody body) :
    ∃ kind, kind.isString = true ∧
      ∀ rest, firstToken q (body ++ [q] ++ rest) = ⟨kind, q :: (body ++ [q])⟩ := by
  obtain ⟨kind, hbracket, hquote, htemplate⟩ := hq.kind
  refine ⟨kind, quote?_isString hquote, fun rest => ?_⟩
  have hsplit := splitItems_of_isStringBody (of_quote? hquote).2 hbody h rest
  rw [List.append_assoc, List.singleton_append]
  simp [firstToken, hbracket, hquote, quotedToken, htemplate, hsplit]

theorem sealed_string (hq : IsQuoteMark q) (hbody : q ∉ body) (h : IsStringBody body) :
    Sealed (q :: (body ++ [q])) := by
  obtain ⟨kind, -, hfirst⟩ := firstToken_string hq hbody h
  exact sealed_of_closed hfirst

/-- A string token between these quotes has the body of a string in it. -/
theorem isStringBody_of_mem_tokenize {cs : List Char} {t : Token} (hq : IsQuoteMark q) (ht : t ∈ tokenize cs)
    (hstring : t.kind.isString = true) (htext : t.text = q :: (body ++ [q])) : IsStringBody body := by
  obtain ⟨kind, hbracket, hquote, htemplate⟩ := hq.kind
  obtain ⟨c, rest, rfl⟩ := exists_firstToken_of_mem ht
  obtain ⟨body', rest', htext', rfl⟩ := exists_firstToken_text c rest
  rw [htext', List.cons.injEq] at htext
  obtain ⟨rfl, rfl⟩ := htext
  have hfirst : firstToken c (body ++ [c] ++ rest') = quotedToken kind c (body ++ [c] ++ rest') := by
    simp [firstToken, hbracket, hquote]
  rw [hfirst] at hstring htext'
  unfold quotedToken at hstring htext'
  rw [htemplate] at hstring htext'
  cases hsplit : splitItems c false (body ++ [c] ++ rest') with
  | mk items left =>
    rw [hsplit] at hstring htext'
    dsimp only at hstring htext'
    split at hstring
    · next hclose =>
      obtain ⟨tail, rfl⟩ := List.head?_eq_some_iff.mp (beq_iff_eq.mp hclose)
      simp only [hclose, if_true, List.cons_append, List.cons.injEq, true_and,
        List.append_cancel_right_eq] at htext'
      exact htext' ▸ isStringBody_of_splitItems (of_quote? hquote).2 hsplit
    · cases hstring

/-! ## Places of strings -/

theorem mem_of_mem_locate {base : Nat} {ts : List Token} {t : Located} (h : t ∈ locate base ts) :
    ⟨t.kind, t.text⟩ ∈ ts := by
  induction ts generalizing base with
  | nil => cases h
  | cons token ts ih =>
    rcases List.mem_cons.mp h with rfl | h
    · exact List.mem_cons_self
    · exact List.mem_cons_of_mem _ (ih h)

/-- Behind a sealed text a quoted text is a string token exactly if it is the body of a string. -/
theorem mem_locate_string_iff {front : List Char} (hfront : Sealed front) (hq : IsQuoteMark q)
    (hbody : q ∉ body) (back : List Char) :
    (∃ t ∈ locate 0 (tokenize (front ++ (q :: (body ++ [q]) ++ back))), t.kind.isString = true ∧
      t.text = q :: (body ++ [q]) ∧ t.span.start = byteLength front) ↔ IsStringBody body := by
  constructor
  · rintro ⟨t, ht, hstring, htext, -⟩
    exact isStringBody_of_mem_tokenize hq (mem_of_mem_locate ht) hstring htext
  · intro h
    obtain ⟨kind, hstring, hfirst⟩ := firstToken_string hq hbody h
    have htokens : tokenize (q :: (body ++ [q]) ++ back) = ⟨kind, q :: (body ++ [q])⟩ :: tokenize back := by
      rw [List.cons_append, tokenize_cons (congrArg Token.text (hfirst back)) rfl, hfirst]
    have hfirm : kind.isFirm = true := by
      revert hstring
      cases kind <;> simp [TokenKind.isString, TokenKind.isFirm]
    have hmem : ⟨kind, q :: (body ++ [q]),
        ⟨byteLength front, byteLength front + byteLength (q :: (body ++ [q]))⟩⟩ ∈
          firmTokens 0 (front ++ (q :: (body ++ [q]) ++ back)) := by
      rw [hfront, firmTokens_cons htokens, Nat.zero_add]
      simp [locate, hfirm]
    exact ⟨_, (List.mem_filter.mp hmem).1, hstring, rfl, rfl⟩

/-! ## Identifiers and strings -/

/-- The identifiers of a word are within it. -/
theorem within_wordIdentifiers (base : Nat) (previous : Option Char) (cs : List Char) :
    ∀ i ∈ wordIdentifiers base previous cs, i.span.Within ⟨base, base + byteLength cs⟩ := by
  fun_induction wordIdentifiers base previous cs with
  | case1 => simp
  | case2 base previous c cs _ name stop ih =>
    have hlength : byteLength (c :: cs) = byteLength name + byteLength (cs.dropWhile isIdentifierChar) := by
      rw [← byteLength_append, List.cons_append, List.takeWhile_append_dropWhile]
    refine List.forall_mem_cons.mpr ⟨⟨Nat.le_refl base, ?_⟩, fun i hi => ⟨?_, ?_⟩⟩
    · show base + byteLength name ≤ base + byteLength (c :: cs)
      omega
    · have := (ih i hi).start_le
      simp only [stop] at this ⊢
      omega
    · have := (ih i hi).le_stop
      simp only [stop] at this ⊢
      omega
  | case3 base previous c cs _ ih =>
    intro i hi
    obtain ⟨hstart, hstop⟩ := ih i hi
    rw [byteLength_cons]
    constructor <;> simp only at * <;> omega

theorem le_of_mem_locate {base : Nat} {ts : List Token} {t : Located} (h : t ∈ locate base ts) :
    base ≤ t.span.start ∧ t.span.stop = t.span.start + byteLength t.text := by
  induction ts generalizing base with
  | nil => cases h
  | cons token ts ih =>
    rcases List.mem_cons.mp h with rfl | h
    · exact ⟨Nat.le_refl _, rfl⟩
    · obtain ⟨hle, hstop⟩ := ih h
      exact ⟨by omega, hstop⟩

/-- Tokens stand one behind the other. -/
theorem locate_pairwise (base : Nat) (ts : List Token) :
    (locate base ts).Pairwise fun t u => t.span.stop ≤ u.span.start := by
  induction ts generalizing base with
  | nil => exact .nil
  | cons token ts ih => exact .cons (fun u hu => (le_of_mem_locate hu).1) (ih _)

theorem disjoint_of_kind {base : Nat} {ts : List Token} {t u : Located} (ht : t ∈ locate base ts)
    (hu : u ∈ locate base ts) (hne : t.kind ≠ u.kind) : t.span.Disjoint u.span := by
  have hapart : (locate base ts).Pairwise fun x y => x.span.Disjoint y.span :=
    (locate_pairwise base ts).imp Span.disjoint_of_le
  have : Std.Symm fun x y : Located => x.span.Disjoint y.span := ⟨fun _ _ hxy => hxy.symm⟩
  exact hapart.forall ht hu fun heq => hne (congrArg Located.kind heq)

/-- An identifier has no byte in common with a string. -/
theorem disjoint_of_string {cs : List Char} {t : Located} (ht : t ∈ locate 0 (tokenize cs))
    (hstring : t.kind.isString = true) : ∀ i ∈ identifiers cs, t.span.Disjoint i.span := by
  intro i hi
  obtain ⟨w, hw, hi⟩ := List.mem_flatMap.mp hi
  split at hi
  · next hword =>
    have hne : t.kind ≠ w.kind := by
      rintro heq
      rw [heq, hword] at hstring
      cases hstring
    have hwithin := within_wordIdentifiers _ _ _ i hi
    rw [← (le_of_mem_locate hw).2] at hwithin
    exact fun o ho => disjoint_of_kind ht hw hne o ⟨ho.1, hwithin.contains ho.2⟩
  · cases hi

end Mdx.Script

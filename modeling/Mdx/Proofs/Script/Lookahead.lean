/-
How far the tokenizer looks ahead. A token that is not malformed ends in one of
three ways (`Lexed`): its own last character closes it, or it is a run that stops
at the first character of another class, or it is a slash that the character
behind it makes no comment. So a token is told from its own text and the one
character behind it (`firstToken_local`), and tokens that stand at the start of a
text are the same whatever the text goes on with, as long as it goes on with the
same character or stops there (`tokenize_local`).
-/
import Mdx.Proofs.Script.Token

namespace Mdx.Script

/-! ## Closed parts -/

theorem splitItems_cons {q c : Char} {multiline : Bool} (hc : c ≠ '\\') (cs : List Char) :
    splitItems q multiline (c :: cs) =
      if c == q || (c == '\n' && !multiline) then ([], c :: cs)
      else (c :: (splitItems q multiline cs).1, (splitItems q multiline cs).2) := by
  rw [splitItems]
  · exact fun h _ => hc h
  · exact fun d cs' h => absurd h hc

/-- String items up to a quote stay the same whatever is behind the quote. -/
theorem splitItems_closed {q : Char} {multiline : Bool} (hq : q ≠ '\\') {cs items rest : List Char}
    (h : splitItems q multiline cs = (items, q :: rest)) (rest' : List Char) :
    splitItems q multiline (items ++ q :: rest') = (items, q :: rest') := by
  fun_induction splitItems q multiline cs generalizing items with
  | case1 => simp at h
  | case2 =>
    simp only [Prod.mk.injEq, List.cons.injEq] at h
    exact absurd h.2.1.symm hq
  | case3 =>
    simp only [Prod.mk.injEq, List.cons.injEq] at h
    exact absurd h.2.1.symm hq
  | case4 d cs hd a b hab ih =>
    simp only [Prod.mk.injEq] at h
    obtain ⟨rfl, rfl⟩ := h
    have ih := ih hab
    simp only [List.cons_append, splitItems, hd, Bool.false_eq_true, if_false, ih]
  | case5 c cs =>
    simp only [Prod.mk.injEq, List.cons.injEq] at h
    obtain ⟨rfl, rfl, rfl⟩ := h
    simp [splitItems_cons hq]
  | case6 c cs hlone hpair hc a b hab ih =>
    simp only [Prod.mk.injEq] at h
    obtain ⟨rfl, rfl⟩ := h
    have hslash : c ≠ '\\' := by
      rintro rfl
      cases cs with
      | nil => exact hlone rfl rfl
      | cons d cs => exact hpair d cs rfl rfl
    rw [List.cons_append, splitItems_cons hslash, if_neg hc, ih hab]

theorem splitComment?_getLast? {cs body rest : List Char} (h : splitComment? cs = some (body, rest)) :
    body.getLast? = some '/' := by
  fun_induction splitComment? cs generalizing body with
  | case1 => simp at h
  | case2 cs =>
    simp only [Option.some.injEq, Prod.mk.injEq] at h
    obtain ⟨rfl, rfl⟩ := h
    rfl
  | case3 c cs hopen ih =>
    simp only [Option.map_eq_some_iff, Prod.mk.injEq, Prod.exists] at h
    obtain ⟨body, rest, h, rfl, rfl⟩ := h
    rw [List.getLast?_cons, ih h, Option.getD_some]

/-- A comment stays the same whatever is behind its end. -/
theorem splitComment?_closed {cs body rest : List Char} (h : splitComment? cs = some (body, rest))
    (rest' : List Char) : splitComment? (body ++ rest') = some (body, rest') := by
  fun_induction splitComment? cs generalizing body with
  | case1 => simp at h
  | case2 cs =>
    simp only [Option.some.injEq, Prod.mk.injEq] at h
    obtain ⟨rfl, rfl⟩ := h
    simp [splitComment?]
  | case3 c cs hopen ih =>
    simp only [Option.map_eq_some_iff, Prod.mk.injEq, Prod.exists] at h
    obtain ⟨body, rest, h, rfl, rfl⟩ := h
    have happ := splitComment?_append h
    have hlast := splitComment?_getLast? h
    have ih := ih h
    cases body with
    | nil => simp at hlast
    | cons d body =>
      -- The next character is the same as before, so the comment does not end here either.
      rw [List.cons_append, splitComment?, ih]
      · rfl
      · rintro later rfl hlater
        cases hlater
        exact hopen _ rfl happ.symm

/-! ## How tokens end -/

/-- The kinds of token that are runs, and what they run over. -/
inductive Run : TokenKind → (Char → Bool) → Prop
  | whitespace : Run .whitespace isSpace
  | lineComment : Run .lineComment (· != '\n')
  | word : Run .word isWordChar

/-- How the first token of the text `c :: cs` ends. -/
inductive Lexed (c : Char) (cs : List Char) : Token → Prop
  /-- The last character closes it, and it is no blank. -/
  | closed {kind : TokenKind} {body : List Char} (tail : List Char) :
    cs = body ++ tail → (∀ rest, firstToken c (body ++ rest) = ⟨kind, c :: body⟩) →
    (∀ ch, (c :: body).getLast? = some ch → isBlank ch = false) → Lexed c cs ⟨kind, c :: body⟩
  /-- Neither a slash nor a star is behind it. -/
  | slash : c = '/' → cs.head? ≠ some '/' → cs.head? ≠ some '*' → Lexed c cs ⟨.slash, ['/']⟩
  /-- It is a run behind its first character and `lead`, which holds no blank. -/
  | run {kind : TokenKind} {p : Char → Bool} {tail : List Char} (lead : List Char) :
    cs = lead ++ tail → Run kind p → (∀ ch ∈ lead, isBlank ch = false) →
    (∀ rest, firstToken c (lead ++ rest) = ⟨kind, c :: (lead ++ rest.takeWhile p)⟩) →
    Lexed c cs ⟨kind, c :: (lead ++ tail.takeWhile p)⟩
  | malformed {text : List Char} : Lexed c cs ⟨.malformed, text⟩

theorem isBlank_of_bracket? {c : Char} {kind : TokenKind} (h : bracket? c = some kind) :
    isBlank c = false := by
  unfold bracket? at h
  split at h <;> first | decide | cases h

theorem of_quote? {c : Char} {kind : TokenKind} (h : quote? c = some kind) :
    isBlank c = false ∧ c ≠ '\\' := by
  unfold quote? at h
  split at h <;> first | decide | cases h

theorem lexed_quotedToken {c : Char} {kind : TokenKind} (hb : bracket? c = none) (hq : quote? c = some kind)
    (cs : List Char) : Lexed c cs (quotedToken kind c cs) := by
  obtain ⟨hblank, hslash⟩ := of_quote? hq
  have happ := splitItems_append c (kind == .template) cs
  unfold quotedToken
  cases hsplit : splitItems c (kind == .template) cs with
  | mk items rest =>
    rw [hsplit] at happ
    dsimp only at happ ⊢
    split
    · next hclose =>
      obtain ⟨tail, rfl⟩ := List.head?_eq_some_iff.mp (beq_iff_eq.mp hclose)
      refine .closed tail (by simp [← happ]) (fun rest => ?_) fun ch hch => ?_
      · have hitems := splitItems_closed hslash hsplit rest
        simp [firstToken, hb, hq, quotedToken, hitems]
      · have hlast : (c :: (items ++ [c])).getLast? = some c := by
          rw [← List.cons_append, List.getLast?_concat]
        cases hlast.symm.trans hch
        exact hblank
    · exact .malformed

theorem slashToken_of_head? {cs : List Char} (hslash : cs.head? ≠ some '/') (hstar : cs.head? ≠ some '*') :
    slashToken cs = ⟨.slash, ['/']⟩ := by
  unfold slashToken
  split
  · exact absurd rfl hslash
  · exact absurd rfl hstar
  · rfl

theorem firstToken_slash (cs : List Char) : firstToken '/' cs = slashToken cs := by
  simp [firstToken, bracket?, quote?]

theorem lexed_slashToken (cs : List Char) : Lexed '/' cs (slashToken cs) := by
  unfold slashToken
  split
  · next cs =>
    have hlead : ∀ ch ∈ ['/'], isBlank ch = false := by
      intro ch hch
      rw [List.mem_singleton.mp hch]
      decide
    refine .run ['/'] (p := (· != '\n')) rfl .lineComment hlead fun rest => ?_
    rw [firstToken_slash]
    rfl
  · next cs =>
    split
    · next body rest h =>
      refine .closed rest (by simp [splitComment?_append h]) (fun rest' => ?_) fun ch hch => ?_
      · rw [firstToken_slash, List.cons_append, slashToken, splitComment?_closed h]
      · rw [List.getLast?_cons_cons, List.getLast?_cons, splitComment?_getLast? h, Option.getD_some] at hch
        cases hch
        decide
    · exact .malformed
  · next hslash hstar =>
    refine .slash rfl (fun h => ?_) fun h => ?_
    · obtain ⟨rest, rfl⟩ := List.head?_eq_some_iff.mp h
      exact hslash rest rfl
    · obtain ⟨rest, rfl⟩ := List.head?_eq_some_iff.mp h
      exact hstar rest rfl

theorem lexed_firstToken (c : Char) (cs : List Char) : Lexed c cs (firstToken c cs) := by
  cases hb : bracket? c with
  | some kind =>
    have hfirst : ∀ rest, firstToken c rest = ⟨kind, [c]⟩ := by
      intro rest
      simp [firstToken, hb]
    rw [hfirst]
    exact .closed cs rfl hfirst fun ch hch => by
      cases hch
      exact isBlank_of_bracket? hb
  | none =>
    cases hq : quote? c with
    | some kind =>
      have hfirst : firstToken c cs = quotedToken kind c cs := by simp [firstToken, hb, hq]
      rw [hfirst]
      exact lexed_quotedToken hb hq cs
    | none =>
      by_cases hslash : c = '/'
      · subst hslash
        rw [firstToken_slash]
        exact lexed_slashToken cs
      · by_cases hspace : isSpace c = true
        · have hfirst : ∀ rest, firstToken c rest = ⟨.whitespace, c :: rest.takeWhile isSpace⟩ := by
            intro rest
            simp [firstToken, hb, hq, hslash, hspace]
          rw [hfirst]
          exact .run [] rfl .whitespace (by simp) hfirst
        · have hfirst : ∀ rest, firstToken c rest = ⟨.word, c :: rest.takeWhile isWordChar⟩ := by
            intro rest
            simp [firstToken, hb, hq, hslash, hspace]
          rw [hfirst]
          exact .run [] rfl .word (by simp) hfirst

/-! ## Locality -/

/-- A run stays the same if it is followed by the same character as before, or by none. -/
theorem takeWhile_local {p : Char → Bool} {cs rest' : List Char}
    (hhead : ∀ ch, rest'.head? = some ch → (cs.dropWhile p).head? = some ch) :
    (cs.takeWhile p ++ rest').takeWhile p = cs.takeWhile p := by
  rw [List.takeWhile_append_of_pos (fun ch hch => Cursor.forall_mem_takeWhile ch hch)]
  cases rest' with
  | nil => simp
  | cons ch rest' =>
    have hstop := List.head?_dropWhile_not p cs
    rw [hhead ch rfl] at hstop
    have hp : p ch = false := by simpa using hstop
    simp [hp]

/-- **A token is told from its own text and the character behind it.** -/
theorem firstToken_local {c : Char} {cs body rest rest' : List Char}
    (hwell : (firstToken c cs).kind ≠ .malformed) (htext : (firstToken c cs).text = c :: body)
    (hcs : cs = body ++ rest) (hhead : ∀ ch, rest'.head? = some ch → rest.head? = some ch) :
    firstToken c (body ++ rest') = firstToken c cs := by
  have hlexed := lexed_firstToken c cs
  generalize firstToken c cs = t at hwell htext hlexed
  cases hlexed with
  | closed tail hsplit hclosed _ =>
    simp only [List.cons.injEq, true_and] at htext
    subst htext
    exact hclosed rest'
  | slash hc hslash hstar =>
    subst hc
    simp only [List.cons.injEq, true_and] at htext
    subst htext hcs
    simp only [List.nil_append] at hslash hstar ⊢
    rw [firstToken_slash]
    exact slashToken_of_head? (fun h => hslash (hhead _ h)) fun h => hstar (hhead _ h)
  | @run kind p tail lead hsplit _ _ hrun =>
    simp only [List.cons.injEq, true_and] at htext
    subst htext
    have hrest : rest = tail.dropWhile p := by
      have := hsplit.symm.trans hcs
      rw [List.append_assoc, List.append_cancel_left_eq] at this
      exact (List.append_cancel_left (List.takeWhile_append_dropWhile.trans this)).symm
    subst hrest
    rw [List.append_assoc, hrun, takeWhile_local hhead]
  | malformed => exact absurd rfl hwell

theorem exists_firstToken_text (c : Char) (cs : List Char) :
    ∃ body rest, (firstToken c cs).text = c :: body ∧ cs = body ++ rest := by
  obtain ⟨rest, hrest⟩ := firstToken_prefix c cs
  obtain ⟨d, body, htext⟩ := List.exists_cons_of_ne_nil (firstToken_text_ne_nil c cs)
  rw [htext, List.cons_append, List.cons.injEq] at hrest
  exact ⟨body, rest, by rw [htext, hrest.1], hrest.2.symm⟩

theorem tokenize_cons {c : Char} {cs body rest : List Char} (htext : (firstToken c cs).text = c :: body)
    (hcs : cs = body ++ rest) : tokenize (c :: cs) = firstToken c cs :: tokenize rest := by
  rw [tokenize, htext]
  simp [hcs]

/-- The tokens at the start of a text are its first token and those behind it. -/
theorem tokenize_eq_cons {cs : List Char} {t : Token} {ts : List Token} (h : tokenize cs = t :: ts) :
    ∃ c body rest, cs = c :: (body ++ rest) ∧ t.text = c :: body ∧ firstToken c (body ++ rest) = t ∧
      tokenize rest = ts := by
  cases cs with
  | nil => simp [tokenize] at h
  | cons c cs =>
    obtain ⟨body, rest, htext, rfl⟩ := exists_firstToken_text c cs
    rw [tokenize_cons htext rfl, List.cons.injEq] at h
    obtain ⟨rfl, hrest⟩ := h
    exact ⟨c, body, rest, rfl, htext, rfl, hrest⟩

/-- What follows the first tokens of a text is tokenized by itself. -/
theorem tokenize_back {cs : List Char} {front back : List Token} (h : tokenize cs = front ++ back) :
    cs = front.flatMap Token.text ++ back.flatMap Token.text ∧
      tokenize (back.flatMap Token.text) = back := by
  induction front generalizing cs with
  | nil =>
    have hcs : cs = back.flatMap Token.text := by
      rw [← tokenize_flatMap_text cs, h]
      rfl
    exact ⟨hcs, hcs ▸ h⟩
  | cons t front ih =>
    obtain ⟨c, body, rest, rfl, htext, -, hrest⟩ := tokenize_eq_cons h
    obtain ⟨hsplit, hback⟩ := ih hrest
    exact ⟨by simp [htext, hsplit], hback⟩

/-- **Tokens do not depend on what is behind them**, but for the next character. -/
theorem tokenize_local {cs : List Char} {front back : List Token} (h : tokenize cs = front ++ back)
    (hwell : ∀ t ∈ front, t.kind ≠ .malformed) {rest' : List Char}
    (hhead : ∀ ch, rest'.head? = some ch → (back.flatMap Token.text).head? = some ch) :
    tokenize (front.flatMap Token.text ++ rest') = front ++ tokenize rest' := by
  induction front generalizing cs with
  | nil => rfl
  | cons t front ih =>
    obtain ⟨ht, hfront⟩ := List.forall_mem_cons.mp hwell
    obtain ⟨c, body, rest, rfl, htext, rfl, hrest⟩ := tokenize_eq_cons h
    obtain ⟨rfl, -⟩ := tokenize_back hrest
    have hsame : firstToken c (body ++ (front.flatMap Token.text ++ rest')) =
        firstToken c (body ++ (front.flatMap Token.text ++ back.flatMap Token.text)) := by
      refine firstToken_local ht htext rfl fun ch hch => ?_
      cases hflat : front.flatMap Token.text with
      | nil => simpa [hflat] using hhead ch (by simpa [hflat] using hch)
      | cons d later => simpa [hflat] using hch
    rw [List.flatMap_cons, htext, List.append_assoc, List.cons_append, List.cons_append,
      tokenize_cons (hsame ▸ htext) rfl, hsame, ih hrest hfront]

end Mdx.Script

/-
Texts that the tokenizer leaves as it entered them. A text is sealed if the tokens
of whatever is behind it are those it has by itself (`Sealed`). Words and
whitespace are left out of account, since a run joins with one before it: all
other tokens stay what they are (`isFirm`). So texts can be put together from
sealed parts, whatever these are (`Sealed.append`).

A text whose tokens are all closed is sealed, unless it ends in a line comment or
in a slash (`sealed_of_tokens`).
-/
import Mdx.Proofs.Script.Balance

namespace Mdx.Script

/-- A token of this kind never joins with what is before it. -/
def TokenKind.isFirm : TokenKind → Bool
  | word | whitespace => false
  | _ => true

/-- The tokens of a text at `base` that are neither words nor whitespace. -/
def firmTokens (base : Nat) (cs : List Char) : List Located :=
  (locate base (tokenize cs)).filter (·.kind.isFirm)

/-- The tokenizer starts afresh behind the text, but for words and whitespace that go on. -/
def Sealed (cs : List Char) : Prop :=
  ∀ base rest, firmTokens base (cs ++ rest) = firmTokens base cs ++ firmTokens (base + byteLength cs) rest

theorem firmTokens_nil (base : Nat) : firmTokens base [] = [] := by
  rw [firmTokens, tokenize]
  rfl

theorem sealed_nil : Sealed [] := by
  intro base rest
  rw [firmTokens_nil]
  rfl

theorem Sealed.append {a b : List Char} (ha : Sealed a) (hb : Sealed b) : Sealed (a ++ b) := by
  intro base rest
  rw [List.append_assoc, ha, hb, ha, byteLength_append, Nat.add_assoc, List.append_assoc]

/-! ## Tokens one by one -/

/-- Of the tokens of some kinds, the first one and those behind it. -/
theorem filter_locate_cons {cs rest : List Char} {t : Token} (h : tokenize cs = t :: tokenize rest)
    (keep : TokenKind → Bool) (base : Nat) :
    (locate base (tokenize cs)).filter (keep ·.kind) = (locate base [t]).filter (keep ·.kind) ++
      (locate (base + byteLength t.text) (tokenize rest)).filter (keep ·.kind) := by
  rw [h, ← List.singleton_append, locate_append, List.filter_append, List.flatMap_singleton]

theorem firmTokens_cons {cs rest : List Char} {t : Token} (h : tokenize cs = t :: tokenize rest) (base : Nat) :
    firmTokens base cs =
      (locate base [t]).filter (·.kind.isFirm) ++ firmTokens (base + byteLength t.text) rest :=
  filter_locate_cons h TokenKind.isFirm base

/-- A token that stays as it is seals what is sealed behind it. -/
theorem sealed_cons {rest : List Char} {t : Token}
    (hfirst : ∀ later, tokenize (t.text ++ (rest ++ later)) = t :: tokenize (rest ++ later))
    (hrest : Sealed rest) : Sealed (t.text ++ rest) := by
  intro base later
  have halone := hfirst []
  rw [List.append_nil] at halone
  rw [List.append_assoc, firmTokens_cons (hfirst later), hrest, firmTokens_cons halone, byteLength_append,
    Nat.add_assoc, List.append_assoc]

/-- A token that its last character closes is sealed. -/
theorem sealed_of_closed {c : Char} {body : List Char} {kind : TokenKind}
    (h : ∀ rest, firstToken c (body ++ rest) = ⟨kind, c :: body⟩) : Sealed (c :: body) := by
  have hsealed := sealed_cons (t := ⟨kind, c :: body⟩) (fun later => ?_) sealed_nil
  · rwa [List.append_nil] at hsealed
  · rw [List.nil_append, List.cons_append, tokenize_cons (congrArg Token.text (h later)) rfl, h]

theorem firstToken_of_isSpace {c : Char} (h : isSpace c = true) (cs : List Char) :
    firstToken c cs = ⟨.whitespace, c :: cs.takeWhile isSpace⟩ := by
  have hcases := h
  simp only [isSpace, Bool.or_eq_true, beq_iff_eq] at hcases
  rcases hcases with (((rfl | rfl) | rfl) | rfl) | rfl <;> rfl

theorem firstToken_of_isWordChar {c : Char} (h : isWordChar c = true) (cs : List Char) :
    firstToken c cs = ⟨.word, c :: cs.takeWhile isWordChar⟩ := by
  simp only [isWordChar, Bool.and_eq_true, Option.isNone_iff_eq_none, bne_iff_ne, ne_eq,
    Bool.not_eq_true'] at h
  obtain ⟨⟨⟨hbracket, hquote⟩, hslash⟩, hspace⟩ := h
  simp [firstToken, hbracket, hquote, hslash, hspace]

/-- Each character of such a run starts one. -/
theorem Run.firstToken_eq {kind : TokenKind} {p : Char → Bool} (h : Run kind p) (hkind : kind ≠ .lineComment)
    {c : Char} (hc : p c = true) (cs : List Char) : firstToken c cs = ⟨kind, c :: cs.takeWhile p⟩ := by
  cases h with
  | whitespace => exact firstToken_of_isSpace hc cs
  | lineComment => exact absurd rfl hkind
  | word => exact firstToken_of_isWordChar hc cs

/-- The rest of a run at the start of a text is no token of other kinds. -/
theorem Run.filter_locate_dropWhile {kind : TokenKind} {p : Char → Bool} (h : Run kind p)
    (hkind : kind ≠ .lineComment) (keep : TokenKind → Bool) (hkeep : keep kind = false) (base : Nat)
    (cs : List Char) :
    (locate (base + byteLength (cs.takeWhile p)) (tokenize (cs.dropWhile p))).filter (keep ·.kind) =
      (locate base (tokenize cs)).filter (keep ·.kind) := by
  cases cs with
  | nil => rfl
  | cons c cs =>
    cases hc : p c with
    | false => simp [hc]
    | true =>
      have htext : (firstToken c cs).text = c :: cs.takeWhile p := by rw [h.firstToken_eq hkind hc]
      have htokens := tokenize_cons htext List.takeWhile_append_dropWhile.symm
      rw [h.firstToken_eq hkind hc] at htokens
      rw [filter_locate_cons htokens, List.takeWhile_cons_of_pos hc, List.dropWhile_cons_of_pos hc]
      simp [locate, hkeep]

theorem Run.isFirm_eq {kind : TokenKind} {p : Char → Bool} (h : Run kind p) (hkind : kind ≠ .lineComment) :
    kind.isFirm = false := by
  cases h with
  | whitespace => rfl
  | lineComment => exact absurd rfl hkind
  | word => rfl

theorem Run.firmTokens_dropWhile {kind : TokenKind} {p : Char → Bool} (h : Run kind p)
    (hkind : kind ≠ .lineComment) (base : Nat) (cs : List Char) :
    firmTokens (base + byteLength (cs.takeWhile p)) (cs.dropWhile p) = firmTokens base cs :=
  h.filter_locate_dropWhile hkind TokenKind.isFirm (h.isFirm_eq hkind) base cs

/-- A run at the end of a text is sealed. -/
theorem Run.sealed {kind : TokenKind} {p : Char → Bool} (h : Run kind p) (hkind : kind ≠ .lineComment)
    {c : Char} {body : List Char}
    (hfirst : ∀ rest, firstToken c (body ++ rest) = ⟨kind, c :: (body ++ rest.takeWhile p)⟩) :
    Sealed (c :: body) := by
  have firm : ∀ base rest,
      firmTokens base (c :: body ++ rest) = firmTokens (base + byteLength (c :: body)) rest := by
    intro base rest
    have htext : (firstToken c (body ++ rest)).text = c :: (body ++ rest.takeWhile p) := by rw [hfirst]
    have hsplit : body ++ rest = body ++ rest.takeWhile p ++ rest.dropWhile p := by
      rw [List.append_assoc, List.takeWhile_append_dropWhile]
    have htokens := tokenize_cons htext hsplit
    rw [hfirst] at htokens
    rw [List.cons_append, firmTokens_cons htokens, ← h.firmTokens_dropWhile hkind (base + _) rest]
    simp [locate, h.isFirm_eq hkind, byteLength_append, byteLength_cons, Nat.add_assoc]
  intro base rest
  have halone := firm base []
  rw [List.append_nil, firmTokens_nil] at halone
  rw [firm, halone, List.nil_append]

/-! ## Sealed texts -/

/-- A text is sealed if all its tokens close and it ends neither in a line comment nor in a slash. -/
theorem sealed_of_tokens {cs : List Char} (hwell : ∀ t ∈ tokenize cs, t.kind ≠ .malformed)
    (hlast : ∀ t, (tokenize cs).getLast? = some t → t.kind ≠ .lineComment ∧ t.kind ≠ .slash) :
    Sealed cs := by
  generalize hts : tokenize cs = ts at hwell hlast
  induction ts generalizing cs with
  | nil =>
    have hcs := tokenize_flatMap_text cs
    rw [hts] at hcs
    exact hcs ▸ sealed_nil
  | cons t ts ih =>
    obtain ⟨c, body, rest, rfl, htext, hfirst, hrest⟩ := tokenize_eq_cons hts
    obtain ⟨ht, hwell⟩ := List.forall_mem_cons.mp hwell
    cases rest with
    | cons d rest =>
      -- The token is told from the next character, which stays the same.
      have hts' : ts ≠ [] := by
        rintro rfl
        have hnil := tokenize_flatMap_text (d :: rest)
        rw [hrest] at hnil
        cases hnil
      have hsealed := ih hrest hwell fun u hu => hlast u (by rw [List.getLast?_cons, hu]; rfl)
      have hcons := sealed_cons (t := t) (fun later => ?_) hsealed
      · rwa [htext, List.cons_append] at hcons
      · have hsame : firstToken c (body ++ (d :: rest ++ later)) = t := by
          rw [← hfirst]
          exact firstToken_local (hfirst ▸ ht) (hfirst ▸ htext) rfl fun ch hch => hch
        rw [htext, List.cons_append, tokenize_cons (hsame ▸ htext) rfl, hsame]
    | nil =>
      obtain ⟨hcomment, hslash⟩ := hlast t (by rw [← hrest, tokenize]; rfl)
      rw [List.append_nil] at hfirst ⊢
      have hlexed := lexed_firstToken c body
      rw [hfirst] at hlexed
      cases hlexed with
      | closed tail _ hclosed _ =>
        cases htext
        exact sealed_of_closed hclosed
      | slash => exact absurd rfl hslash
      | @run kind p tail lead hsplit hrun _ hlater =>
        have hall : ∀ ch ∈ tail, p ch = true := forall_mem_of_takeWhile (hsplit ▸ htext)
        refine hrun.sealed hcomment fun later => ?_
        rw [hsplit, List.append_assoc, hlater, List.takeWhile_append_of_pos hall, List.append_assoc]
      | malformed => exact absurd rfl ht

/-- The character opens neither a string nor a comment. -/
def isPlain (c : Char) : Bool := (quote? c).isNone && c != '/'

/-- Characters of a class that none of these four are in are plain. -/
theorem isPlain_of_class {p : Char → Bool} {c : Char} (h : p c = true) (hdouble : p '\x22' = false)
    (hsingle : p '\x27' = false) (htemplate : p '\x60' = false) (hslash : p '/' = false) :
    isPlain c = true := by
  have hquote : quote? c = none := by
    unfold quote?
    split <;> simp_all
  have hne : c ≠ '/' := by
    rintro rfl
    rw [h] at hslash
    cases hslash
  simp [isPlain, hquote, hne]

theorem sealed_singleton {c : Char} (h : isPlain c = true) : Sealed [c] := by
  simp only [isPlain, Bool.and_eq_true, Option.isNone_iff_eq_none, bne_iff_ne] at h
  obtain ⟨hquote, hslash⟩ := h
  cases hbracket : bracket? c with
  | some kind =>
    have hfirst : ∀ rest, firstToken c ([] ++ rest) = ⟨kind, [c]⟩ := fun rest => by simp [firstToken, hbracket]
    exact sealed_of_closed hfirst
  | none =>
    by_cases hspace : isSpace c = true
    · exact Run.whitespace.sealed (by decide) (firstToken_of_isSpace hspace)
    · have hword : isWordChar c = true := by simp [isWordChar, hbracket, hquote, hslash, hspace]
      exact Run.word.sealed (by decide) (firstToken_of_isWordChar hword)

/-- A text without quotes and slashes is sealed. -/
theorem sealed_of_plain {cs : List Char} (h : ∀ ch ∈ cs, isPlain ch = true) : Sealed cs := by
  induction cs with
  | nil => exact sealed_nil
  | cons c cs ih =>
    obtain ⟨hc, hcs⟩ := List.forall_mem_cons.mp h
    exact (sealed_singleton hc).append (ih hcs)

theorem sealed_blanks {cs : List Char} (h : ∀ ch ∈ cs, isBlank ch = true) : Sealed cs := by
  refine sealed_of_plain fun ch hch => isPlain_of_class (h ch hch) ?_ ?_ ?_ ?_ <;> decide

/-- A slash with a plain text behind it that has no star in it. -/
theorem sealed_slash {cs : List Char} (hne : cs ≠ []) (h : ∀ ch ∈ cs, isPlain ch = true ∧ ch ≠ '*') :
    Sealed ('/' :: cs) := by
  obtain ⟨c, cs, rfl⟩ := List.exists_cons_of_ne_nil hne
  obtain ⟨hplain, hstar⟩ := h c List.mem_cons_self
  have hslash : c ≠ '/' := by
    rintro rfl
    exact absurd hplain (by decide)
  refine sealed_cons (t := ⟨.slash, ['/']⟩) (fun later => ?_) (sealed_of_plain fun ch hch => (h ch hch).1)
  have hfirst : firstToken '/' (c :: cs ++ later) = ⟨.slash, ['/']⟩ := by
    rw [firstToken_slash]
    exact slashToken_of_head? (fun heq => hslash (Option.some.inj heq)) fun heq => hstar (Option.some.inj heq)
  rw [List.singleton_append]
  exact (tokenize_cons (congrArg Token.text hfirst) rfl).trans (congrArg (· :: _) hfirst)

theorem Braced.sealed {text : List Char} {isEmpty : Bool} (h : Braced text isEmpty) : Sealed text := by
  obtain ⟨front, hts, -, hcloses, -⟩ := h
  refine sealed_of_tokens (fun t ht => ?_) fun t ht => ?_
  · rw [hts, List.mem_append, List.mem_singleton] at ht
    rcases ht with ht | rfl
    · exact hcloses.wellFormed_tokens t ht
    · simp
  · rw [hts, List.getLast?_concat] at ht
    cases ht
    simp

theorem exists_firstToken_of_mem {cs : List Char} {t : Token} (h : t ∈ tokenize cs) :
    ∃ c rest, firstToken c rest = t := by
  fun_induction tokenize cs with
  | case1 => cases h
  | case2 c cs token ih =>
    rcases List.mem_cons.mp h with rfl | h
    · exact ⟨c, cs, rfl⟩
    · exact ih h

theorem bracket?_ne_lineComment (c : Char) : bracket? c ≠ some .lineComment := by
  unfold bracket?
  split <;> simp

theorem quote?_isString {c : Char} {kind : TokenKind} (h : quote? c = some kind) : kind.isString = true := by
  unfold quote? at h
  split at h <;> cases h <;> rfl

/-- A line comment starts with two slashes and runs to the end of the line. -/
theorem firstToken_lineComment {c : Char} {cs : List Char} (h : (firstToken c cs).kind = .lineComment) :
    ∃ rest, c = '/' ∧ cs = '/' :: rest ∧ (firstToken c cs).text = '/' :: '/' :: rest.takeWhile (· != '\n') := by
  revert h
  unfold firstToken
  split
  · next kind hbracket =>
    rintro rfl
    exact absurd hbracket (bracket?_ne_lineComment c)
  · next kind _ hquote =>
    intro h
    rcases quotedToken_kind kind c cs with hkind | hkind
    · have hstring := quote?_isString hquote
      rw [hkind.symm.trans h] at hstring
      cases hstring
    · cases hkind.symm.trans h
  · split
    · next hslash =>
      rw [beq_iff_eq.mp hslash]
      unfold slashToken
      split
      · exact fun _ => ⟨_, rfl, rfl, rfl⟩
      · split <;> simp
      · simp
    · split <;> simp

/-- What is behind a line comment starts with a line feed. -/
theorem eq_newline_of_lineComment {c ch : Char} {body rest : List Char}
    (h : (firstToken c (body ++ rest)).kind = .lineComment)
    (htext : (firstToken c (body ++ rest)).text = c :: body)
    (hch : rest.head? = some ch) : ch = '\n' := by
  obtain ⟨comment, rfl, hsplit, hcomment⟩ := firstToken_lineComment h
  rw [htext, List.cons.injEq] at hcomment
  obtain ⟨-, rfl⟩ := hcomment
  rw [List.cons_append, List.cons.injEq] at hsplit
  have hrest : rest = comment.dropWhile (· != '\n') :=
    List.append_cancel_left (hsplit.2.trans List.takeWhile_append_dropWhile.symm)
  have hstop := List.head?_dropWhile_not (· != '\n') comment
  rw [← hrest, hch] at hstop
  simpa using hstop

/-- A balanced text that ends its line is sealed. -/
theorem Balanced.sealed {cs : List Char} (h : Balanced (cs ++ ['\n'])) : Sealed (cs ++ ['\n']) := by
  have hwell := wellFormed_of_openAfter h
  obtain ⟨front, text, w, p, hts, -, hw, hrun, -, -⟩ := last_of_blank (by decide) hwell
  refine sealed_of_tokens hwell fun t ht => ?_
  rw [hts, List.getLast?_concat] at ht
  cases ht
  constructor
  · intro hkind
    obtain ⟨c, rest, rfl⟩ := exists_firstToken_of_mem (show w ∈ tokenize (cs ++ ['\n']) by simp [hts])
    obtain ⟨comment, rfl, rfl, htext⟩ := firstToken_lineComment hkind
    have hmem : '\n' ∈ '/' :: '/' :: comment.takeWhile (· != '\n') := by simp [← htext, hw]
    simp only [List.mem_cons, show '\n' ≠ '/' by decide, false_or] at hmem
    exact absurd (Cursor.forall_mem_takeWhile _ hmem) (by decide)
  · intro hkind
    rw [hkind] at hrun
    cases hrun

/-- The inside of an empty expression is trivia, and it ends in no line comment, which would go on over
the closing brace. -/
theorem Braced.tokens_body {body : List Char} (h : Braced ('\x7b' :: body ++ ['\x7d']) true) :
    (∀ t ∈ tokenize body, t.kind.isTrivia = true) ∧ ∀ t ∈ (tokenize body).getLast?, t.kind ≠ .lineComment := by
  obtain ⟨front, hts, -, hcloses, htrivia⟩ := h
  rw [List.cons_append, tokenize_openBrace] at hts
  cases front with
  | nil => cases hts
  | cons first front =>
    rw [List.cons_append, List.cons.injEq] at hts
    obtain ⟨rfl, hts⟩ := hts
    rw [List.tail_cons, eq_comm, List.all_eq_true] at htrivia
    have hwell : ∀ t ∈ front, t.kind ≠ .malformed := fun t ht => hcloses.wellFormed_tokens t (by simp [ht])
    obtain ⟨hbody, -⟩ := tokenize_back hts
    have hbody : body = front.flatMap Token.text := List.append_cancel_right hbody
    have htokens : tokenize body = front := by
      have hlocal := tokenize_local hts hwell (show ∀ ch ∈ ([] : List Char).head?, _ from by simp)
      rwa [List.append_nil, ← hbody, tokenize, List.append_nil] at hlocal
    rw [htokens]
    refine ⟨htrivia, fun t ht hkind => ?_⟩
    obtain ⟨front, rfl⟩ := List.getLast?_eq_some_iff.mp ht
    rw [List.append_assoc] at hts
    obtain ⟨-, hlast⟩ := tokenize_back hts
    obtain ⟨c, comment, rest, hsplit, htext, hfirst, hrest⟩ := tokenize_eq_cons hlast
    have hbrace : rest = ['\x7d'] := by
      rw [← tokenize_flatMap_text rest, hrest]
      rfl
    exact absurd (eq_newline_of_lineComment (by rw [hfirst, hkind]) (by rw [hfirst, htext])
      (show rest.head? = some '\x7d' by rw [hbrace]; rfl)) (by decide)

/-- The inside of an empty expression is sealed. -/
theorem Braced.sealed_body {body : List Char} (h : Braced ('\x7b' :: body ++ ['\x7d']) true) : Sealed body := by
  obtain ⟨htrivia, hlast⟩ := h.tokens_body
  have not_trivia : ∀ {kind : TokenKind}, kind.isTrivia = false → ∀ t ∈ tokenize body, t.kind ≠ kind := by
    rintro kind hkind t ht rfl
    rw [htrivia t ht] at hkind
    cases hkind
  exact sealed_of_tokens (not_trivia rfl) fun t ht => ⟨hlast t ht, not_trivia rfl t (List.mem_of_getLast? ht)⟩

/-! ## Comments -/

/-- A comment ends behind a text that does not end it. -/
theorem splitComment?_of_notInfix {body : List Char} (h : ¬ ['*', '/'] <:+: body) (rest : List Char) :
    splitComment? (body ++ '*' :: '/' :: rest) = some (body ++ ['*', '/'], rest) := by
  induction body with
  | nil => rfl
  | cons c body ih =>
    have hlater : ¬ ['*', '/'] <:+: body := fun hinfix => h (List.infix_cons hinfix)
    rw [List.cons_append, splitComment?, ih hlater]
    · rfl
    · rintro later rfl hstart
      cases body with
      | nil => simp at hstart
      | cons d body =>
        simp only [List.cons_append, List.cons.injEq] at hstart
        rw [hstart.1] at h
        exact h ⟨[], body, rfl⟩

/-- A comment is one token, whatever is behind it. -/
theorem firstToken_comment {body : List Char} (h : ¬ ['*', '/'] <:+: body) (rest : List Char) :
    firstToken '/' ('*' :: (body ++ ['*', '/']) ++ rest) = ⟨.blockComment, '/' :: '*' :: (body ++ ['*', '/'])⟩ := by
  have hsplit := splitComment?_of_notInfix h rest
  rw [firstToken_slash]
  simp only [List.cons_append, List.nil_append, List.append_assoc, slashToken, hsplit]

/-- A block comment is sealed. -/
theorem sealed_comment {body : List Char} (h : ¬ ['*', '/'] <:+: body) :
    Sealed ('/' :: '*' :: (body ++ ['*', '/'])) := sealed_of_closed (firstToken_comment h)

end Mdx.Script

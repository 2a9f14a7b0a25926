/-
Brackets that pair up. `openAfter` says which brackets are open behind some
tokens, so a text is balanced if its tokens leave nothing open, and where a text
is cut makes a difference only by what is open there (`openAfter_append`).

Blanks at the end of a text do not matter (`balanced_append_blanks`), though they
may be a part of its last token. A balanced text that ends with a line feed can be
followed by another text, whose tokens then stay what they are
(`tokenize_append`).
-/
import Mdx.Proofs.Script.Matching

namespace Mdx.Script

/-- What is open behind one more token, as the brackets that are waited for, the next one first. Nothing
can follow a malformed token or a bracket that closes no open one. -/
def openStep (stack : List TokenKind) (kind : TokenKind) : Option (List TokenKind) :=
  if kind = .malformed then none
  else
    match kind.closer? with
    | some closer => some (closer :: stack)
    | none =>
      if kind.isCloser then
        match stack with
        | expected :: stack => if expected = kind then some stack else none
        | [] => none
      else some stack

/-- What is open behind the tokens. -/
def openAfter (stack kinds : List TokenKind) : Option (List TokenKind) := kinds.foldlM openStep stack

/-- All brackets of the text pair up, and all its strings, templates and comments close. -/
def Balanced (cs : List Char) : Prop := openAfter [] ((tokenize cs).map Token.kind) = some []

theorem openAfter_nil (stack : List TokenKind) : openAfter stack [] = some stack := rfl

theorem openAfter_cons (stack : List TokenKind) (kind : TokenKind) (kinds : List TokenKind) :
    openAfter stack (kind :: kinds) = (openStep stack kind).bind (openAfter · kinds) := rfl

theorem openAfter_append (stack front back : List TokenKind) :
    openAfter stack (front ++ back) = (openAfter stack front).bind (openAfter · back) :=
  List.foldlM_append

theorem balanced_nil : Balanced [] := by
  rw [Balanced, tokenize]
  rfl

/-- Nothing is behind a malformed token. -/
theorem not_malformed_of_openAfter {stack stack' kinds : List TokenKind}
    (h : openAfter stack kinds = some stack') : .malformed ∉ kinds := by
  intro hmem
  obtain ⟨front, back, rfl⟩ := List.append_of_mem hmem
  rw [openAfter_append] at h
  obtain ⟨mid, -, h⟩ := Option.bind_eq_some_iff.mp h
  cases h

theorem wellFormed_of_openAfter {stack stack' : List TokenKind} {ts : List Token}
    (h : openAfter stack (ts.map Token.kind) = some stack') : ∀ t ∈ ts, t.kind ≠ .malformed := by
  intro t ht hkind
  exact not_malformed_of_openAfter h (List.mem_map.mpr ⟨t, ht, hkind⟩)

/-! ## The check -/

theorem checkBrackets_eq_ok_iff {stack : List (TokenKind × Span)} {ts : List Located} :
    checkBrackets stack ts = .ok () ↔
      openAfter (stack.map Prod.fst) (ts.map Located.kind) = some [] := by
  fun_induction checkBrackets stack ts with
  | case1 => simp [openAfter_nil]
  | case2 kind place stack => simp [openAfter_nil]
  | case3 stack t ts hmal => simp [openAfter_cons, openStep, hmal]
  | case4 stack t ts hmal closer hcloser ih => simpa [openAfter_cons, openStep, hmal, hcloser] using ih
  | case5 t ts hmal hcloser hcloses place stack ih =>
    simpa [openAfter_cons, openStep, hmal, hcloser, hcloses] using ih
  | case6 t ts hmal hcloser hcloses expected place stack hne =>
    simp [openAfter_cons, openStep, hmal, hcloser, hcloses, hne]
  | case7 t ts hmal hcloser hcloses => simp [openAfter_cons, openStep, hmal, hcloser, hcloses]
  | case8 stack t ts hmal hcloser hcloses ih =>
    simpa [openAfter_cons, openStep, hmal, hcloser, hcloses] using ih

theorem checkBalanced_eq_ok_iff {base : Nat} {cs : List Char} :
    checkBalanced base cs = .ok () ↔ Balanced cs := by
  rw [checkBalanced, checkBrackets_eq_ok_iff, map_kind_locate]
  rfl

/-! ## The last token -/

theorem Run.openStep {kind : TokenKind} {p : Char → Bool} (h : Run kind p) (stack : List TokenKind) :
    openStep stack kind = some stack := by
  cases h <;> rfl

theorem tokenize_blank {b : Char} (hb : isBlank b = true) :
    ∃ kind p, Run kind p ∧ tokenize [b] = [⟨kind, [b]⟩] := by
  have hbracket : bracket? b = none := by
    cases h : bracket? b with
    | none => rfl
    | some kind =>
      rw [isBlank_of_bracket? h] at hb
      cases hb
  have hquote : quote? b = none := by
    cases h : quote? b with
    | none => rfl
    | some kind =>
      rw [(of_quote? h).1] at hb
      cases hb
  have hslash : (b == '/') = false := by
    refine beq_eq_false_iff_ne.mpr ?_
    rintro rfl
    revert hb
    decide
  cases hspace : isSpace b with
  | true => exact ⟨_, _, .whitespace, by simp [tokenize, firstToken, hbracket, hquote, hslash, hspace]⟩
  | false => exact ⟨_, _, .word, by simp [tokenize, firstToken, hbracket, hquote, hslash, hspace]⟩

/-- A text of one token. -/
theorem whole_token {w : Token} {text : List Char} (h : tokenize text = [w]) :
    ∃ c body, text = c :: body ∧ w.text = c :: body ∧ firstToken c body = w := by
  obtain ⟨c, body, rest, rfl, htext, hfirst, hrest⟩ := tokenize_eq_cons h
  have hnil : rest = [] := by
    rw [← tokenize_flatMap_text rest, hrest]
    rfl
  subst hnil
  rw [List.append_nil] at hfirst ⊢
  exact ⟨c, body, rfl, htext, hfirst⟩

/-- A run that is all of a text. -/
theorem forall_mem_of_takeWhile {p : Char → Bool} {lead tail : List Char} {c : Char}
    (h : c :: (lead ++ tail.takeWhile p) = c :: (lead ++ tail)) : ∀ ch ∈ tail, p ch = true := by
  have htail : tail.takeWhile p = tail := by simpa using h
  rw [← htail]
  exact fun ch hch => Cursor.forall_mem_takeWhile ch hch

/-- The last token of a text, if it ends with a blank: a run, of which the blank is the first character
or one more. -/
theorem run_of_blank {w : Token} {text : List Char} {b : Char} (h : tokenize (text ++ [b]) = [w])
    (hwell : w.kind ≠ .malformed) (hb : isBlank b = true) :
    ∃ p, Run w.kind p ∧ (∀ rest : List Char, (∀ ch, rest.head? = some ch → p ch = false) →
        tokenize (text ++ [b] ++ rest) = w :: tokenize rest) ∧
      (text = [] ∨ p b = true ∧ (tokenize text).map Token.kind = [w.kind]) := by
  obtain ⟨c, body, hcs, htext, hfirst⟩ := whole_token h
  have hlexed := lexed_firstToken c body
  rw [hfirst] at hlexed
  cases hlexed with
  | @closed kind body' tail _ _ hlast =>
    have hchars : text ++ [b] = c :: body' := hcs.trans htext.symm
    rw [hlast b (by rw [← hchars, List.getLast?_concat])] at hb
    cases hb
  | slash =>
    simp only [List.cons.injEq] at htext
    obtain ⟨rfl, rfl⟩ := htext
    obtain ⟨rfl, rfl⟩ : text = [] ∧ b = '/' := by
      cases text with
      | nil => simpa using hcs
      | cons c' text => simp at hcs
    exact absurd hb (by decide)
  | @run kind p tail lead hsplit hrun hlead hlater =>
    have hall : ∀ ch ∈ tail, p ch = true := forall_mem_of_takeWhile (hsplit ▸ htext)
    refine ⟨p, hrun, fun rest hrest => ?_, ?_⟩
    · have hsame : (tail ++ rest).takeWhile p = tail := by
        rw [List.takeWhile_append_of_pos hall]
        cases rest with
        | nil => simp
        | cons ch rest => simp [hrest ch rfl]
      have hnext := hlater (tail ++ rest)
      rw [hsame] at hnext
      have htokens : tokenize (c :: (lead ++ (tail ++ rest))) = firstToken c (lead ++ (tail ++ rest)) :: tokenize rest :=
        tokenize_cons (congrArg Token.text hnext) (List.append_assoc lead tail rest).symm
      rw [hcs, hsplit, List.cons_append, List.append_assoc, htokens, hnext, ← hsplit, ← htext]
    · cases text with
      | nil => exact .inl rfl
      | cons c' text =>
        simp only [List.cons_append, List.cons.injEq] at hcs
        obtain ⟨rfl, hbody⟩ := hcs
        rw [hsplit] at hbody
        -- The blank is the last character of the run, since it is not in `lead`.
        rcases List.eq_nil_or_concat tail with rfl | ⟨tail', ch, rfl⟩
        · rw [List.append_nil] at hbody
          rw [hlead b (by simp [← hbody])] at hb
          cases hb
        · rw [List.concat_eq_append, ← List.append_assoc] at hbody
          obtain ⟨rfl, hch⟩ := List.append_inj' hbody rfl
          cases hch
          have htake : (tail' ++ []).takeWhile p = tail' ++ [].takeWhile p :=
            List.takeWhile_append_of_pos fun ch hch => hall ch (by simp [hch])
          have hshorter := hlater (tail' ++ [])
          rw [htake, List.takeWhile_nil, List.append_nil] at hshorter
          refine .inr ⟨hall b (by simp), ?_⟩
          rw [tokenize_cons (congrArg Token.text hshorter) (List.append_nil _).symm, hshorter, tokenize]
          rfl
  | malformed => exact absurd rfl hwell

/-- The last token of a text, if it ends with a blank. -/
theorem last_of_blank {cs : List Char} {b : Char} (hb : isBlank b = true)
    (hwell : ∀ t ∈ tokenize (cs ++ [b]), t.kind ≠ .malformed) :
    ∃ front text w p, tokenize (cs ++ [b]) = front ++ [w] ∧ cs = front.flatMap Token.text ++ text ∧
      w.text = text ++ [b] ∧ Run w.kind p ∧
      (∀ rest : List Char, (∀ ch, rest.head? = some ch → p ch = false) →
        tokenize (text ++ [b] ++ rest) = w :: tokenize rest) ∧
      (text = [] ∨ p b = true ∧ (tokenize text).map Token.kind = [w.kind]) := by
  rcases List.eq_nil_or_concat (tokenize (cs ++ [b])) with hnil | ⟨front, w, hts⟩
  · have hflat := tokenize_flatMap_text (cs ++ [b])
    rw [hnil] at hflat
    simp at hflat
  rw [List.concat_eq_append] at hts
  obtain ⟨hsplit, hlast⟩ := tokenize_back hts
  have hne := text_ne_nil_of_mem_tokenize (show w ∈ tokenize (cs ++ [b]) by simp [hts])
  simp only [List.flatMap_cons, List.flatMap_nil, List.append_nil] at hsplit hlast
  obtain ⟨text, hw⟩ : ∃ text, w.text = text ++ [b] := by
    rcases List.eq_nil_or_concat w.text with hnil | ⟨text, ch, hw⟩
    · exact absurd hnil hne
    · rw [List.concat_eq_append] at hw
      rw [hw, ← List.append_assoc] at hsplit
      obtain ⟨-, hch⟩ := List.append_inj' hsplit rfl
      cases hch
      exact ⟨text, hw⟩
  rw [hw] at hlast
  rw [hw, ← List.append_assoc] at hsplit
  obtain ⟨p, hrun, hrest, htext⟩ := run_of_blank hlast (hwell w (by simp [hts])) hb
  exact ⟨front, text, w, p, hts, List.append_cancel_right hsplit, hw, hrun, hrest, htext⟩

/-! ## Blanks at the end -/

theorem openAfter_singleton (stack : List TokenKind) (kind : TokenKind) :
    openAfter stack [kind] = openStep stack kind := by
  rw [openAfter_cons]
  cases openStep stack kind <;> rfl

/-- A blank behind a whole token becomes a part of it or is a token that opens and closes nothing. -/
theorem openAfter_token_blank {w : Token} {text : List Char} {b : Char} (h : tokenize text = [w])
    (hwell : w.kind ≠ .malformed) (hb : isBlank b = true) (stack : List TokenKind) :
    openAfter stack ((tokenize (text ++ [b])).map Token.kind) = openStep stack w.kind := by
  obtain ⟨c, body, rfl, htext, hfirst⟩ := whole_token h
  -- If the token stays as it is, the blank is a token of its own.
  have alone : firstToken c (body ++ [b]) = w →
      openAfter stack ((tokenize (c :: body ++ [b])).map Token.kind) = openStep stack w.kind := by
    intro hsame
    obtain ⟨kind, p, hrun, hblank⟩ := tokenize_blank hb
    rw [List.cons_append, tokenize_cons (hsame ▸ htext) rfl, hsame, hblank]
    show openAfter stack [w.kind, kind] = _
    rw [openAfter_cons]
    cases openStep stack w.kind with
    | none => rfl
    | some stack' => exact (openAfter_singleton stack' kind).trans (hrun.openStep stack')
  have hlexed := lexed_firstToken c body
  rw [hfirst] at hlexed
  cases hlexed with
  | closed tail _ hclosed _ =>
    cases htext
    exact alone (hclosed [b])
  | slash hc _ _ =>
    cases htext
    refine alone ?_
    rw [List.nil_append, firstToken_slash]
    refine slashToken_of_head? ?_ ?_ <;> rintro ⟨⟩ <;> exact absurd hb (by decide)
  | @run kind p tail lead hsplit hrun hlead hlater =>
    have hall : ∀ ch ∈ tail, p ch = true := forall_mem_of_takeWhile (hsplit ▸ htext)
    have hnext := hlater (tail ++ [b])
    rw [List.takeWhile_append_of_pos hall, ← List.append_assoc, ← List.append_assoc, ← hsplit] at hnext
    cases hp : p b with
    | true =>
      rw [List.takeWhile_cons_of_pos hp, List.takeWhile_nil] at hnext
      rw [List.cons_append, tokenize_cons (congrArg Token.text hnext) (List.append_nil _).symm, hnext, tokenize]
      exact openAfter_singleton stack kind
    | false =>
      refine alone ?_
      rw [hnext, List.takeWhile_cons_of_neg (by simp [hp]), List.append_nil, ← htext]
  | malformed => exact absurd rfl hwell

theorem balanced_append_blank {cs : List Char} {b : Char} (hb : isBlank b = true) :
    Balanced (cs ++ [b]) ↔ Balanced cs := by
  constructor
  · intro h
    obtain ⟨front, text, w, p, hts, rfl, hw, hrun, -, htext⟩ := last_of_blank hb (wellFormed_of_openAfter h)
    have hfront : ∀ t ∈ front, t.kind ≠ .malformed := by
      intro t ht
      exact wellFormed_of_openAfter h t (by rw [hts]; simp [ht])
    have hshorter : tokenize (front.flatMap Token.text ++ text) = front ++ tokenize text := by
      refine tokenize_local hts hfront fun ch hch => ?_
      rw [List.flatMap_singleton, hw, List.head?_append, hch]
      rfl
    rw [Balanced, hts, List.map_append, openAfter_append] at h
    rw [Balanced, hshorter, List.map_append, openAfter_append]
    obtain ⟨stack, hopen, hlast⟩ := Option.bind_eq_some_iff.mp h
    rw [hopen]
    show openAfter stack _ = some []
    have hlast : openAfter stack [w.kind] = some [] := hlast
    rcases htext with rfl | ⟨-, hkinds⟩
    · rw [tokenize, List.map_nil, openAfter_nil, ← hrun.openStep stack, ← openAfter_singleton, hlast]
    · rw [hkinds, hlast]
  · intro h
    rcases List.eq_nil_or_concat (tokenize cs) with hnil | ⟨front, w, hts⟩
    · obtain ⟨kind, p, hrun, hblank⟩ := tokenize_blank hb
      have hcs : cs = [] := by
        rw [← tokenize_flatMap_text cs, hnil]
        rfl
      rw [hcs, Balanced, List.nil_append, hblank]
      exact (openAfter_singleton [] kind).trans (hrun.openStep [])
    · rw [List.concat_eq_append] at hts
      have hwell := wellFormed_of_openAfter h
      rw [hts] at hwell
      obtain ⟨hsplit, hlast⟩ := tokenize_back hts
      rw [List.flatMap_singleton] at hsplit hlast
      have hlonger : tokenize (cs ++ [b]) = front ++ tokenize (w.text ++ [b]) := by
        rw [hsplit, List.append_assoc]
        refine tokenize_local hts (fun t ht => hwell t (by simp [ht])) fun ch hch => ?_
        obtain ⟨c, body, hchars, -⟩ := whole_token hlast
        rw [hchars] at hch
        rw [List.flatMap_singleton, hchars]
        exact hch
      rw [Balanced, hts, List.map_append, openAfter_append] at h
      rw [Balanced, hlonger, List.map_append, openAfter_append, ← h]
      refine congrArg _ (funext fun stack => ?_)
      rw [openAfter_token_blank hlast (hwell w (by simp)) hb]
      exact (openAfter_singleton stack w.kind).symm

theorem balanced_append_blanks {cs gap : List Char} (hgap : ∀ ch ∈ gap, isBlank ch = true) :
    Balanced (cs ++ gap) ↔ Balanced cs := by
  induction gap generalizing cs with
  | nil => rw [List.append_nil]
  | cons b gap ih =>
    obtain ⟨hb, hgap⟩ := List.forall_mem_cons.mp hgap
    rw [List.append_cons, ih hgap, balanced_append_blank hb]

/-! ## Texts one behind the other -/

/-- No token of the text reaches over the offset `n`, and no bracket is open there. -/
def OutsideAt (text : List Char) (n : Nat) : Prop :=
  ∃ front back, tokenize text = front ++ back ∧ byteLength (front.flatMap Token.text) = n ∧
    openAfter [] (front.map Token.kind) = some []

/-- The text is empty or ends with a line feed. -/
def EndsLine (text : List Char) : Prop := text = [] ∨ text.getLast? = some '\n'

variable {before text behind : List Char}

/-- A text that ends with a line feed ends with whitespace, so a word behind it is a token of its own. -/
theorem tokenize_append (hbefore : Balanced before) (hline : EndsLine before)
    (hbehind : ∀ ch, behind.head? = some ch → isSpace ch = false) :
    tokenize (before ++ behind) = tokenize before ++ tokenize behind := by
  rcases hline with rfl | hline
  · rw [tokenize]
    rfl
  obtain ⟨front', rfl⟩ := List.getLast?_eq_some_iff.mp hline
  have hwell := wellFormed_of_openAfter hbefore
  obtain ⟨front, text, w, p, hts, rfl, hw, hrun, hlater, htext⟩ := last_of_blank (by decide) hwell
  have hspace : p = isSpace := by
    have hfeed : p '\n' = true ∨ w.kind = .whitespace := by
      rcases htext with rfl | ⟨hfeed, -⟩
      · have hsame : ⟨.whitespace, ['\n']⟩ :: tokenize [] = w :: tokenize [] :=
          (tokenize_cons (show (firstToken '\n' []).text = ['\n'] from rfl) rfl).symm.trans
            (hlater [] (by simp))
        exact .inr (congrArg Token.kind (List.cons.inj hsame).1).symm
      · exact .inl hfeed
    generalize w.kind = kind at hrun hfeed
    cases hrun with
    | whitespace => rfl
    | lineComment => exact absurd hfeed (by decide)
    | word => exact absurd hfeed (by decide)
  subst hspace
  have hsame : tokenize (front.flatMap Token.text ++ (w.text ++ behind)) =
      front ++ tokenize (w.text ++ behind) := by
    refine tokenize_local hts (fun t ht => hwell t (by rw [hts]; simp [ht])) fun ch hch => ?_
    rw [List.flatMap_singleton]
    rw [hw] at hch ⊢
    cases text <;> exact hch
  rw [hts, List.append_assoc, List.append_assoc, ← List.append_assoc text, ← hw, hsame, hw, hlater behind hbehind]
  simp

theorem balanced_append (hbefore : Balanced before) (hline : EndsLine before) (htext : Balanced text)
    (hfirst : ∀ ch, text.head? = some ch → isSpace ch = false) : Balanced (before ++ text) := by
  rw [Balanced, tokenize_append hbefore hline hfirst, List.map_append, openAfter_append, hbefore]
  exact htext

theorem outsideAt_append (hbefore : Balanced before) (hline : EndsLine before)
    (hfirst : ∀ ch, behind.head? = some ch → isSpace ch = false) :
    OutsideAt (before ++ behind) (byteLength before) :=
  ⟨_, _, tokenize_append hbefore hline hfirst, by rw [tokenize_flatMap_text], hbefore⟩

/-- What stands between two places with nothing open is balanced by itself. -/
theorem balanced_between (hstart : OutsideAt (before ++ text ++ behind) (byteLength before))
    (hstop : OutsideAt (before ++ text ++ behind) (byteLength (before ++ text))) : Balanced text := by
  obtain ⟨front, back, hts, hlength, hopen⟩ := hstart
  obtain ⟨front', back', hts', hlength', hopen'⟩ := hstop
  have hfront : front.flatMap Token.text = before := by
    have htake := takeBytes_append (front.flatMap Token.text) (back.flatMap Token.text)
    rwa [← (tokenize_back hts).1, hlength, List.append_assoc, takeBytes_append, eq_comm] at htake
  have hfront' : front'.flatMap Token.text = before ++ text := by
    have htake := takeBytes_append (front'.flatMap Token.text) (back'.flatMap Token.text)
    rwa [← (tokenize_back hts').1, hlength', takeBytes_append, eq_comm] at htake
  rcases List.append_eq_append_iff.mp (hts.symm.trans hts') with ⟨mid, rfl, hback⟩ | ⟨mid, rfl, -⟩
  · rw [List.flatMap_append, hfront, List.append_cancel_left_eq] at hfront'
    rw [List.map_append, openAfter_append, hopen] at hopen'
    have hwell := wellFormed_of_openAfter hopen'
    have hlocal : tokenize (mid.flatMap Token.text ++ []) = mid ++ tokenize [] :=
      tokenize_local ((tokenize_back hts).2.trans hback) hwell (by simp)
    rw [List.append_nil, hfront', tokenize, List.append_nil] at hlocal
    rw [Balanced, hlocal]
    exact hopen'
  · rw [List.flatMap_append, hfront', List.append_assoc] at hfront
    simp only [List.append_right_eq_self, List.append_eq_nil_iff] at hfront
    rw [hfront.1]
    exact balanced_nil

/-- What stands behind a place with nothing open in a balanced text is balanced by itself. -/
theorem balanced_behind (hwhole : Balanced (before ++ text))
    (hstart : OutsideAt (before ++ text) (byteLength before)) : Balanced text := by
  have hstop : OutsideAt (before ++ text) (byteLength (before ++ text)) :=
    ⟨_, [], (List.append_nil _).symm, by rw [tokenize_flatMap_text], hwhole⟩
  exact @balanced_between before text [] (by rwa [List.append_nil]) (by rwa [List.append_nil])

end Mdx.Script

/-
The brackets of a text as words of a grammar: the empty word, two words in a row,
and a word in a pair of brackets (`Dyck`). There are three pairs (`Pairs`).

The grammar and the stack of open brackets are tied together in two ways. A word
of the grammar leaves every stack as it is (`Dyck.openAfter`), and a word that
empties a stack is cut by the brackets of that stack into words of the grammar
(`closing_of_openAfter`). What is still open is also the word that completes what
was read (`exists_completion_iff`), so tokens can be completed to a balanced text
exactly as long as the scan goes on.

From this the check is right (`checkBalanced_judges`): it accepts the texts whose
brackets are a word of the grammar, and what it blames is the first token behind
which no completion is left or, if there is none, the last bracket left open.
-/
import Mdx.Proofs.Script.Balance
import Mdx.Proofs.Text.Span

namespace Mdx.Script

/-- An open bracket and the closing one of its shape. -/
inductive Pairs : TokenKind → TokenKind → Prop
  | parens : Pairs .openParen .closeParen
  | brackets : Pairs .openBracket .closeBracket
  | braces : Pairs .openBrace .closeBrace

/-- A bracket of any shape, open or closing. -/
def TokenKind.isBracket : TokenKind → Bool
  | openParen | closeParen | openBracket | closeBracket | openBrace | closeBrace => true
  | _ => false

/-- The brackets among some tokens. -/
def brackets (kinds : List TokenKind) : List TokenKind := kinds.filter TokenKind.isBracket

/-- The words of brackets in which every bracket has its partner. -/
inductive Dyck : List TokenKind → Prop
  | nil : Dyck []
  | append {a b : List TokenKind} : Dyck a → Dyck b → Dyck (a ++ b)
  | pair {opener closer : TokenKind} {a : List TokenKind} :
    Pairs opener closer → Dyck a → Dyck (opener :: (a ++ [closer]))

theorem brackets_append (a b : List TokenKind) : brackets (a ++ b) = brackets a ++ brackets b :=
  List.filter_append ..

theorem brackets_cons (kind : TokenKind) (kinds : List TokenKind) :
    brackets (kind :: kinds) = if kind.isBracket then kind :: brackets kinds else brackets kinds :=
  List.filter_cons

/-! ## One token -/

/-- The scan knows the same pairs. -/
theorem pairs_iff {opener closer : TokenKind} : Pairs opener closer ↔ opener.closer? = some closer := by
  constructor
  · rintro (_ | _ | _) <;> rfl
  · intro h
    cases opener <;> cases h
    · exact .braces
    · exact .parens
    · exact .brackets

theorem isCloser_iff {closer : TokenKind} : closer.isCloser = true ↔ ∃ opener, Pairs opener closer := by
  constructor
  · intro h
    cases closer with
    | closeBrace => exact ⟨_, .braces⟩
    | closeParen => exact ⟨_, .parens⟩
    | closeBracket => exact ⟨_, .brackets⟩
    | _ => cases h
  · rintro ⟨opener, _ | _ | _⟩ <;> rfl

theorem Pairs.isCloser {opener closer : TokenKind} (h : Pairs opener closer) : closer.isCloser = true :=
  isCloser_iff.mpr ⟨opener, h⟩

theorem isBracket_eq (kind : TokenKind) : kind.isBracket = (kind.closer?.isSome || kind.isCloser) := by
  cases kind <;> rfl

theorem openStep_opener {opener closer : TokenKind} (h : Pairs opener closer) (stack : List TokenKind) :
    openStep stack opener = some (closer :: stack) := by
  cases h <;> rfl

theorem openStep_closer {closer : TokenKind} (h : closer.isCloser = true) (stack : List TokenKind) :
    openStep (closer :: stack) closer = some stack := by
  cases closer with
  | closeBrace | closeParen | closeBracket => rfl
  | _ => cases h

theorem openStep_nil {closer : TokenKind} (h : closer.isCloser = true) : openStep [] closer = none := by
  cases closer with
  | closeBrace | closeParen | closeBracket => rfl
  | _ => cases h

theorem openStep_other {kind : TokenKind} (h : kind.isBracket = false) (hwell : kind ≠ .malformed)
    (stack : List TokenKind) : openStep stack kind = some stack := by
  have hneither : kind.closer? = none ∧ kind.isCloser = false := by simpa [isBracket_eq] using h
  simp [openStep, hwell, hneither]

/-- What a token that is read does to the stack. -/
theorem openStep_cases {kind : TokenKind} {stack stack' : List TokenKind}
    (h : openStep stack kind = some stack') :
    (∃ closer, Pairs kind closer ∧ stack' = closer :: stack) ∨
    (kind.isCloser = true ∧ stack = kind :: stack') ∨
    (kind.isBracket = false ∧ stack = stack') := by
  unfold openStep at h
  split at h
  · cases h
  split at h
  · next closer hcloser => exact .inl ⟨closer, pairs_iff.mpr hcloser, (Option.some.inj h).symm⟩
  · next hcloser =>
    split at h
    · next hcloses =>
      split at h
      · split at h
        · next heq => exact .inr (.inl ⟨hcloses, by rw [heq, Option.some.inj h]⟩)
        · cases h
      · cases h
    · next hcloses => exact .inr (.inr ⟨by simp [isBracket_eq, hcloser, hcloses], Option.some.inj h⟩)

/-- Only a malformed token or a closing bracket is not read. -/
theorem openStep_eq_none {kind : TokenKind} {stack : List TokenKind} (h : openStep stack kind = none) :
    kind = .malformed ∨ kind.isCloser = true := by
  cases kind with
  | malformed => exact .inl rfl
  | closeBrace | closeParen | closeBracket => exact .inr rfl
  | _ => cases h

/-! ## Words and stacks -/

/-- A word of the grammar leaves the stack as it is. -/
theorem Dyck.openAfter {word : List TokenKind} (h : Dyck word) (stack : List TokenKind) :
    openAfter stack word = some stack := by
  induction h generalizing stack with
  | nil => rfl
  | append _ _ iha ihb =>
    rw [openAfter_append, iha]
    exact ihb stack
  | @pair opener closer a hcloser _ ih =>
    rw [openAfter_cons, openStep_opener hcloser, Option.bind_some, openAfter_append, ih, Option.bind_some,
      openAfter_singleton, openStep_closer hcloser.isCloser]

/-- Tokens that are no brackets leave the stack as it is, too. -/
theorem openAfter_brackets {kinds : List TokenKind} (h : .malformed ∉ kinds) (stack : List TokenKind) :
    openAfter stack (brackets kinds) = openAfter stack kinds := by
  induction kinds generalizing stack with
  | nil => rfl
  | cons kind kinds ih =>
    rw [List.mem_cons, not_or] at h
    rw [brackets_cons, openAfter_cons]
    split
    · rw [openAfter_cons]
      exact congrArg _ (funext fun stack => ih h.2 stack)
    · next hbracket =>
      rw [openStep_other (by simpa using hbracket) (Ne.symm h.1), ih h.2]
      rfl

theorem Dyck.openAfter_tokens {kinds : List TokenKind} (h : Dyck (brackets kinds)) (hwell : .malformed ∉ kinds)
    (stack : List TokenKind) : Script.openAfter stack kinds = some stack := by
  rw [← openAfter_brackets hwell, h.openAfter]

/-- The word closes the brackets of the stack, with words of the grammar before and between them. -/
inductive Closing : List TokenKind → List TokenKind → Prop
  | nil {a : List TokenKind} : Dyck a → Closing [] a
  | cons {closer : TokenKind} {stack a b : List TokenKind} :
    Dyck a → Closing stack b → Closing (closer :: stack) (a ++ closer :: b)

theorem Closing.prepend {stack a b : List TokenKind} (h : Closing stack b) (ha : Dyck a) :
    Closing stack (a ++ b) := by
  cases h with
  | nil hb => exact .nil (ha.append hb)
  | cons hb hlater =>
    rw [← List.append_assoc]
    exact .cons (ha.append hb) hlater

/-- Tokens that empty a stack are cut by its brackets into words of the grammar. -/
theorem closing_of_openAfter {stack kinds : List TokenKind} (h : openAfter stack kinds = some []) :
    Closing stack (brackets kinds) := by
  induction kinds generalizing stack with
  | nil =>
    cases h
    exact .nil .nil
  | cons kind kinds ih =>
    rw [openAfter_cons] at h
    obtain ⟨stack', hstep, h⟩ := Option.bind_eq_some_iff.mp h
    have hlater := ih h
    rw [brackets_cons]
    obtain ⟨closer, hcloser, rfl⟩ | ⟨hcloser, rfl⟩ | ⟨hother, rfl⟩ := openStep_cases hstep
    · -- The bracket is closed by the first one that closes the longer stack.
      rw [if_pos (by simp [isBracket_eq, pairs_iff.mp hcloser])]
      generalize brackets kinds = word at hlater ⊢
      cases hlater with
      | @cons _ _ a b ha hb =>
        have hpair := hb.prepend (.pair hcloser ha)
        rwa [List.cons_append, List.append_assoc] at hpair
    · rw [if_pos (by simp [isBracket_eq, hcloser])]
      exact .cons .nil hlater
    · rw [if_neg (by simp [hother])]
      exact hlater

/-- The stack is empty behind tokens whose brackets are a word of the grammar. -/
theorem openAfter_eq_nil_iff {kinds : List TokenKind} :
    openAfter [] kinds = some [] ↔ .malformed ∉ kinds ∧ Dyck (brackets kinds) := by
  constructor
  · intro h
    refine ⟨not_malformed_of_openAfter h, ?_⟩
    cases closing_of_openAfter h with
    | nil hdyck => exact hdyck
  · rintro ⟨hwell, hdyck⟩
    exact hdyck.openAfter_tokens hwell []

/-! ## Completions -/

theorem isCloser_of_openAfter {stack stack' kinds : List TokenKind}
    (hstack : ∀ kind ∈ stack, kind.isCloser = true) (h : openAfter stack kinds = some stack') :
    ∀ kind ∈ stack', kind.isCloser = true := by
  induction kinds generalizing stack with
  | nil =>
    cases h
    exact hstack
  | cons kind kinds ih =>
    rw [openAfter_cons] at h
    obtain ⟨mid, hstep, h⟩ := Option.bind_eq_some_iff.mp h
    refine ih ?_ h
    obtain ⟨closer, hcloser, rfl⟩ | ⟨-, rfl⟩ | ⟨-, rfl⟩ := openStep_cases hstep
    · exact List.forall_mem_cons.mpr ⟨hcloser.isCloser, hstack⟩
    · exact (List.forall_mem_cons.mp hstack).2
    · exact hstack

/-- What is waited for closes what is open. -/
theorem openAfter_self {stack : List TokenKind} (h : ∀ kind ∈ stack, kind.isCloser = true) :
    openAfter stack stack = some [] := by
  induction stack with
  | nil => rfl
  | cons closer stack ih =>
    obtain ⟨hcloser, hstack⟩ := List.forall_mem_cons.mp h
    rw [openAfter_cons, openStep_closer hcloser]
    exact ih hstack

/-- The brackets read so far begin a word of the grammar exactly if the scan got through them. -/
theorem exists_completion_iff {kinds : List TokenKind} (hwell : .malformed ∉ kinds) :
    (∃ rest, Dyck (brackets kinds ++ rest)) ↔ ∃ stack, openAfter [] kinds = some stack := by
  constructor
  · rintro ⟨rest, hdyck⟩
    have hwhole := hdyck.openAfter []
    rw [openAfter_append, openAfter_brackets hwell] at hwhole
    obtain ⟨stack, hopen, -⟩ := Option.bind_eq_some_iff.mp hwhole
    exact ⟨stack, hopen⟩
  · rintro ⟨stack, hopen⟩
    -- What is still waited for is a completion.
    have hself := openAfter_self (isCloser_of_openAfter (by simp) hopen)
    have hwhole : openAfter [] (kinds ++ stack) = some [] := by
      rw [openAfter_append, hopen]
      exact hself
    refine ⟨brackets stack, ?_⟩
    rw [← brackets_append]
    exact (openAfter_eq_nil_iff.mp hwhole).2

/-! ## Tokens that spoil a text -/

/-- Behind these tokens, the next one makes every text that goes on from there unbalanced: it is
malformed, or a closing bracket with which no word of the grammar goes on. -/
def Spoils (before : List TokenKind) (kind : TokenKind) : Prop :=
  kind = .malformed ∨ (∃ opener, Pairs opener kind) ∧ ¬ ∃ rest, Dyck (brackets (before ++ [kind]) ++ rest)

/-- None of the tokens spoils the text. -/
def Unspoiled (kinds : List TokenKind) : Prop :=
  ∀ before kind, before ++ [kind] <+: kinds → ¬ Spoils before kind

theorem unspoiled_of_openAfter {kinds stack : List TokenKind} (h : openAfter [] kinds = some stack) :
    Unspoiled kinds := by
  rintro before kind ⟨behind, rfl⟩ hspoils
  rw [openAfter_append] at h
  obtain ⟨mid, hopen, -⟩ := Option.bind_eq_some_iff.mp h
  have hwell := not_malformed_of_openAfter hopen
  rcases hspoils with rfl | ⟨-, hstuck⟩
  · exact hwell (by simp)
  · exact hstuck ((exists_completion_iff hwell).mpr ⟨mid, hopen⟩)

theorem spoils_of_openStep {before stack : List TokenKind} {kind : TokenKind}
    (hbefore : openAfter [] before = some stack) (h : openStep stack kind = none) : Spoils before kind := by
  by_cases hkind : kind = .malformed
  · exact .inl hkind
  refine .inr ⟨isCloser_iff.mp ((openStep_eq_none h).resolve_left hkind), fun hrest => ?_⟩
  have hwell : .malformed ∉ before ++ [kind] := by
    rw [List.mem_append, List.mem_singleton, not_or]
    exact ⟨not_malformed_of_openAfter hbefore, Ne.symm hkind⟩
  obtain ⟨stack', hopen⟩ := (exists_completion_iff hwell).mp hrest
  rw [openAfter_append, hbefore, Option.bind_some, openAfter_singleton, h] at hopen
  cases hopen

/-! ## Brackets left open -/

/-- An open bracket, followed by tokens of which none closes it: what is between it and a bracket of
its shape is never a word of the grammar. -/
def LeftOpen (kind : TokenKind) (behind : List TokenKind) : Prop :=
  ∃ closer, Pairs kind closer ∧ ∀ a b, brackets behind = a ++ closer :: b → ¬ Dyck a

/-- If all that is opened behind a bracket is closed there, the bracket itself is left open. -/
theorem leftOpen_of_openAfter {kind closer : TokenKind} {behind : List TokenKind}
    (hcloser : Pairs kind closer) (h : openAfter [] behind = some []) : LeftOpen kind behind := by
  refine ⟨closer, hcloser, fun a b hsplit ha => ?_⟩
  have hdyck := (openAfter_eq_nil_iff.mp h).2.openAfter []
  rw [hsplit, openAfter_append, ha.openAfter, Option.bind_some, openAfter_cons,
    openStep_nil hcloser.isCloser] at hdyck
  cases hdyck

/-- No bracket is left open among tokens behind which nothing is open. -/
theorem not_leftOpen_of_openAfter {before behind stack : List TokenKind} {kind : TokenKind}
    (h : openAfter stack (before ++ kind :: behind) = some []) : ¬ LeftOpen kind behind := by
  rintro ⟨closer, hcloser, hnever⟩
  rw [openAfter_append] at h
  obtain ⟨mid, -, h⟩ := Option.bind_eq_some_iff.mp h
  rw [openAfter_cons, openStep_opener hcloser] at h
  have hclosing : Closing (closer :: mid) (brackets behind) := closing_of_openAfter h
  generalize hword : brackets behind = word at hclosing hnever
  cases hclosing with
  | cons ha _ => exact hnever _ _ rfl ha

/-! ## What the check blames -/

/-- What is blamed for tokens that are not balanced: the first one that spoils the text or, if there is
none, the last bracket left open. -/
inductive FirstFault (ts : List Located) : ParseError → Prop
  | spoils {before behind : List Located} {t : Located} : ts = before ++ t :: behind →
    Unspoiled (before.map Located.kind) → Spoils (before.map Located.kind) t.kind →
    FirstFault ts
      ⟨if t.kind = .malformed then .unterminatedInModule else .unexpectedBracket, t.firstChar⟩
  | leftOpen {before behind : List Located} {t : Located} : ts = before ++ t :: behind →
    Unspoiled (ts.map Located.kind) → LeftOpen t.kind (behind.map Located.kind) →
    (∀ before' t' behind', behind = before' ++ t' :: behind' →
      ¬ LeftOpen t'.kind (behind'.map Located.kind)) →
    FirstFault ts ⟨.unclosedBracket, t.firstChar⟩

/-- The stack behind some tokens: each entry is for an open bracket, the last one first, and what is
opened behind that bracket and before the next one of the stack is closed. -/
inductive Pending : List (TokenKind × Span) → List Located → Prop
  | nil {ts : List Located} : openAfter [] (ts.map Located.kind) = some [] → Pending [] ts
  | cons {stack : List (TokenKind × Span)} {before behind : List Located} {t : Located} {closer : TokenKind} :
    Pending stack before → Pairs t.kind closer →
    openAfter [] (behind.map Located.kind) = some [] →
    Pending ((closer, t.firstChar) :: stack) (before ++ t :: behind)

section Pending

variable {stack : List (TokenKind × Span)} {ts more : List Located} {t : Located}

/-- Tokens that open and close by themselves do so above any stack. -/
theorem openAfter_of_nil {kinds : List TokenKind} (h : openAfter [] kinds = some []) (stack : List TokenKind) :
    openAfter stack kinds = some stack := by
  obtain ⟨hwell, hdyck⟩ := openAfter_eq_nil_iff.mp h
  exact hdyck.openAfter_tokens hwell stack

theorem Pending.openAfter (h : Pending stack ts) :
    openAfter [] (ts.map Located.kind) = some (stack.map Prod.fst) := by
  induction h with
  | nil hopen => exact hopen
  | cons _ hcloser hbehind ih =>
    rw [List.map_append, List.map_cons, openAfter_append, ih, Option.bind_some, openAfter_cons,
      openStep_opener hcloser, Option.bind_some, openAfter_of_nil hbehind]
    rfl

/-- Tokens that close all they open change nothing. -/
theorem Pending.append (h : Pending stack ts) (hmore : Script.openAfter [] (more.map Located.kind) = some []) :
    Pending stack (ts ++ more) := by
  cases h with
  | nil hopen =>
    refine .nil ?_
    rw [List.map_append, openAfter_append, hopen]
    exact hmore
  | cons hbefore hcloser hbehind =>
    rw [List.append_assoc, List.cons_append]
    refine .cons hbefore hcloser ?_
    rw [List.map_append, openAfter_append, hbehind]
    exact hmore

theorem Pending.opener {closer : TokenKind} (h : Pending stack ts) (hcloser : Pairs t.kind closer) :
    Pending ((closer, t.firstChar) :: stack) (ts ++ [t]) :=
  .cons h hcloser rfl

/-- A bracket that closes the last open one makes a balanced part of all from that one on. -/
theorem Pending.closer {place : Span} (h : Pending ((t.kind, place) :: stack) ts) : Pending stack (ts ++ [t]) := by
  cases h with
  | @cons _ before behind opener _ hbefore hcloser hbehind =>
    rw [List.append_assoc, List.cons_append]
    refine hbefore.append ?_
    rw [List.map_cons, List.map_append, openAfter_cons, openStep_opener hcloser, Option.bind_some,
      openAfter_append, openAfter_of_nil hbehind, Option.bind_some, List.map_singleton, openAfter_singleton,
      openStep_closer hcloser.isCloser]

theorem Pending.other (h : Pending stack ts) (hkind : t.kind.isBracket = false)
    (hwell : t.kind ≠ .malformed) : Pending stack (ts ++ [t]) := by
  refine h.append ?_
  rw [List.map_singleton, openAfter_singleton, openStep_other hkind hwell]

theorem Pending.spoils (h : Pending stack ts) (hnone : openStep (stack.map Prod.fst) t.kind = none)
    (behind : List Located) : FirstFault (ts ++ t :: behind)
      ⟨if t.kind = .malformed then .unterminatedInModule else .unexpectedBracket, t.firstChar⟩ :=
  .spoils rfl (unspoiled_of_openAfter h.openAfter) (spoils_of_openStep h.openAfter hnone)

theorem Pending.leftOpen {closer : TokenKind} {place : Span} (h : Pending ((closer, place) :: stack) ts) :
    FirstFault ts ⟨.unclosedBracket, place⟩ := by
  have hunspoiled := unspoiled_of_openAfter h.openAfter
  cases h with
  | cons _ hcloser hbehind =>
    refine .leftOpen rfl hunspoiled (leftOpen_of_openAfter hcloser hbehind) ?_
    rintro before' t' behind' rfl
    rw [List.map_append] at hbehind
    exact not_leftOpen_of_openAfter hbehind

end Pending

/-- Every token that is read keeps the stack right, so what is blamed at the end is. -/
theorem firstFault_of_checkBrackets {stack : List (TokenKind × Span)} {done ts : List Located} {e : ParseError}
    (hdone : Pending stack done) (h : checkBrackets stack ts = .error e) : FirstFault (done ++ ts) e := by
  -- The tokens move one by one from `ts` to `done`, so what is blamed is told of both together.
  fun_induction checkBrackets stack ts generalizing done with
  | case1 => cases h
  | case2 kind place stack =>
    cases h
    rw [List.append_nil]
    exact hdone.leftOpen
  | case3 stack t ts hmal =>
    cases h
    have hnone : openStep (stack.map Prod.fst) t.kind = none := by simp [openStep, hmal]
    have hfault := hdone.spoils hnone ts
    rwa [if_pos hmal] at hfault
  | case4 stack t ts hmal closer hcloser ih =>
    rw [List.append_cons]
    exact ih (hdone.opener (pairs_iff.mpr hcloser)) h
  | case5 t ts hmal hcloser hcloses place stack ih =>
    rw [List.append_cons]
    exact ih hdone.closer h
  | case6 t ts hmal hcloser hcloses expected place stack hne =>
    cases h
    have hnone : openStep (expected :: stack.map Prod.fst) t.kind = none := by
      simp [openStep, hmal, hcloser, hcloses, hne]
    have hfault := hdone.spoils hnone ts
    rwa [if_neg hmal] at hfault
  | case7 t ts hmal hcloser hcloses =>
    cases h
    have hfault := hdone.spoils (openStep_nil hcloses) ts
    rwa [if_neg hmal] at hfault
  | case8 stack t ts hmal hcloser hcloses ih =>
    rw [List.append_cons]
    exact ih (hdone.other (by simp [isBracket_eq, hcloser, hcloses]) hmal) h

/-! ## Parts of a text -/

/-- The tokens of a part of a text, at their places in the whole text. -/
def tokensIn (cs : List Char) (s : Span) : List Located := locate s.start (tokenize (slice cs s))

theorem slice_of_mem_tokensIn {cs : List Char} {s : Span} (h : s.InText cs) {t : Located}
    (ht : t ∈ tokensIn cs s) : t.span.InText cs ∧ slice cs t.span = t.text := by
  obtain ⟨a, b, text, ha, htext, rfl⟩ := h.path
  rw [tokensIn, ha.slice htext] at ht
  rw [← tokenize_flatMap_text text] at htext
  obtain ⟨start, stop, hstart, hpath, hspan⟩ := path_of_mem_locate htext ht
  rw [hspan]
  exact ⟨Span.inText_spanTo (ha.reaches hstart) hpath.reaches, (ha.reaches hstart).slice hpath⟩

/-- **Balanced texts.** A part of a text passes the check if and only if none of its tokens is malformed
and its brackets are a word of the grammar. If it does not pass, the first token that spoils the text is
blamed or, if none does, the last bracket left open. The places of the tokens are those in the whole
text. -/
theorem checkBalanced_judges {cs : List Char} {s : Span} (h : s.InText cs) :
    (∀ t ∈ tokensIn cs s, t.span.InText cs ∧ slice cs t.span = t.text) ∧
    (checkBalanced s.start (slice cs s) = .ok () ↔
      (∀ t ∈ tokensIn cs s, t.kind ≠ .malformed) ∧ Dyck (brackets ((tokensIn cs s).map Located.kind))) ∧
    ∀ e, checkBalanced s.start (slice cs s) = .error e → FirstFault (tokensIn cs s) e := by
  refine ⟨fun t ht => slice_of_mem_tokensIn h ht, ?_, fun e he => ?_⟩
  · rw [checkBalanced, checkBrackets_eq_ok_iff]
    refine openAfter_eq_nil_iff.trans (and_congr_left fun _ => ?_)
    simp [tokensIn]
  · have hstart : Pending [] [] := .nil rfl
    exact firstFault_of_checkBrackets hstart he

/-- Brackets that cross, of which the first closing one is blamed, pairs of all shapes in each other, and a
bracket left open behind a pair. -/
theorem checkBalanced_judges_crossed :
    let cs := "é([)]\x7b[()]\x7d(()a".toList
    (Span.InText cs ⟨2, 6⟩ ∧ checkBalanced 2 (slice cs ⟨2, 6⟩) = .error ⟨.unexpectedBracket, ⟨4, 5⟩⟩ ∧
      ¬ Dyck (brackets ((tokensIn cs ⟨2, 6⟩).map Located.kind)) ∧
      FirstFault (tokensIn cs ⟨2, 6⟩) ⟨.unexpectedBracket, ⟨4, 5⟩⟩) ∧
    (Span.InText cs ⟨6, 12⟩ ∧ Dyck (brackets ((tokensIn cs ⟨6, 12⟩).map Located.kind)) ∧
      checkBalanced 6 (slice cs ⟨6, 12⟩) = .ok ()) ∧
    (Span.InText cs ⟨12, 16⟩ ∧ checkBalanced 12 (slice cs ⟨12, 16⟩) = .error ⟨.unclosedBracket, ⟨12, 13⟩⟩ ∧
      ¬ Dyck (brackets ((tokensIn cs ⟨12, 16⟩).map Located.kind)) ∧
      FirstFault (tokensIn cs ⟨12, 16⟩) ⟨.unclosedBracket, ⟨12, 13⟩⟩) := by
  intro cs
  -- A part without malformed tokens that does not pass is no word of the grammar.
  have rejected : ∀ {s : Span} {e : ParseError}, s.InText cs → (∀ t ∈ tokensIn cs s, t.kind ≠ .malformed) →
      checkBalanced s.start (slice cs s) = .error e → ¬ Dyck (brackets ((tokensIn cs s).map Located.kind)) := by
    intro s e hin hwell herror hdyck
    rw [(checkBalanced_judges hin).2.1.mpr ⟨hwell, hdyck⟩] at herror
    cases herror
  have hcrossed : Span.InText cs ⟨2, 6⟩ := ⟨by decide, by decide, by decide, by decide⟩
  have hnested : Span.InText cs ⟨6, 12⟩ := ⟨by decide, by decide, by decide, by decide⟩
  have hopen : Span.InText cs ⟨12, 16⟩ := ⟨by decide, by decide, by decide, by decide⟩
  have hcross : checkBalanced 2 (slice cs ⟨2, 6⟩) = .error ⟨.unexpectedBracket, ⟨4, 5⟩⟩ :=
    error_of_failure? (by decide +kernel)
  have hleft : checkBalanced 12 (slice cs ⟨12, 16⟩) = .error ⟨.unclosedBracket, ⟨12, 13⟩⟩ :=
    error_of_failure? (by decide +kernel)
  have hword : brackets ((tokensIn cs ⟨6, 12⟩).map Located.kind) =
      [.openBrace, .openBracket, .openParen, .closeParen, .closeBracket, .closeBrace] := by decide +kernel
  have hdyck : Dyck (brackets ((tokensIn cs ⟨6, 12⟩).map Located.kind)) :=
    hword ▸ .pair .braces (.pair .brackets (.pair .parens .nil))
  obtain ⟨-, hok, -⟩ := checkBalanced_judges hnested
  exact ⟨⟨hcrossed, hcross, rejected hcrossed (by decide +kernel) hcross, (checkBalanced_judges hcrossed).2.2 _ hcross⟩,
    ⟨hnested, hdyck, hok.mpr ⟨by decide +kernel, hdyck⟩⟩,
    ⟨hopen, hleft, rejected hopen (by decide +kernel) hleft, (checkBalanced_judges hopen).2.2 _ hleft⟩⟩

end Mdx.Script

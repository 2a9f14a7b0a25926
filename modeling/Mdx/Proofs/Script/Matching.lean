/-
Which brace closes an expression. It is the first closing brace token at which as
many braces are closed as were opened, and there is one only if no token before
it is malformed (`ClosesAt`, `closingBrace_eq_ok_iff`).

The tokens up to that brace do not depend on what is behind it, so a text in
braces (`Braced`) is found closed at its end in every text that it stands in
(`closingBrace_of_braced`).
-/
import Mdx.Proofs.Script.Brace
import Mdx.Proofs.Script.Lookahead

namespace Mdx.Script

/-- With `depth` braces open before them, the tokens close as many braces as were opened. -/
def Even (depth : Nat) (kinds : List TokenKind) : Prop :=
  depth + kinds.count .openBrace = kinds.count .closeBrace

/-- With `depth` braces open before these tokens, a closing brace behind them is the first one that
makes the braces even, and no token before it is malformed. -/
structure ClosesAt (depth : Nat) (kinds : List TokenKind) : Prop where
  wellFormed : .malformed ∉ kinds
  even : Even depth (kinds ++ [.closeBrace])
  first : ∀ before, before ++ [.closeBrace] <+: kinds → ¬ Even depth (before ++ [.closeBrace])

theorem even_append_close {depth : Nat} {kinds : List TokenKind} :
    Even depth (kinds ++ [.closeBrace]) ↔
      depth + kinds.count .openBrace = kinds.count .closeBrace + 1 := by
  simp [Even]

theorem closesAt_nil {depth : Nat} : ClosesAt depth [] ↔ depth = 1 := by
  constructor
  · intro h
    simpa using even_append_close.mp h.even
  · rintro rfl
    exact ⟨by simp, by simp [Even], by simp⟩

/-- One token less to read, if braces are still open behind it. -/
theorem closesAt_cons {depth depth' : Nat} {kind : TokenKind} {kinds : List TokenKind}
    (hkind : kind ≠ .malformed) (hpos : 0 < depth')
    (hstep : depth + [kind].count .openBrace = depth' + [kind].count .closeBrace) :
    ClosesAt depth (kind :: kinds) ↔ ClosesAt depth' kinds := by
  have heven : ∀ later, Even depth (kind :: later ++ [.closeBrace]) ↔
      Even depth' (later ++ [.closeBrace]) := by
    intro later
    have hcount : ∀ k, (kind :: later).count k = [kind].count k + later.count k := by
      intro k
      rw [← List.count_append, List.singleton_append]
    rw [even_append_close, even_append_close, hcount, hcount]
    omega
  constructor
  · intro h
    refine ⟨fun hmem => h.wellFormed (List.mem_cons_of_mem _ hmem), (heven kinds).mp h.even, ?_⟩
    intro before hbefore heq
    exact h.first (kind :: before) (List.cons_prefix_cons.mpr ⟨rfl, hbefore⟩) ((heven before).mpr heq)
  · intro h
    refine ⟨?_, (heven kinds).mpr h.even, ?_⟩
    · rw [List.mem_cons, not_or]
      exact ⟨hkind.symm, h.wellFormed⟩
    · intro before hbefore
      cases before with
      | nil =>
        obtain ⟨rfl, -⟩ := List.cons_prefix_cons.mp hbefore
        simp only [List.count_singleton] at hstep
        simp [Even] at hstep ⊢
        omega
      | cons kind' before =>
        obtain ⟨rfl, hlater⟩ := List.cons_prefix_cons.mp hbefore
        rw [heven before]
        exact h.first before hlater

/-! ## The scan -/

/-- A scan that goes on behind a token finds what the scan behind it does. -/
theorem behind_eq_ok {t : Token} {found : List Char × Bool} {x : Except BraceFailure (List Char × Bool)} :
    (match x with
      | .ok (before, e) => Except.ok (t.text ++ before, e)
      | .error (.malformed before) => .error (BraceFailure.malformed (t.text ++ before))
      | .error .unclosed => .error BraceFailure.unclosed) = .ok found ↔
      ∃ before e, x = .ok (before, e) ∧ found = (t.text ++ before, e) := by
  match x with
  | .ok (before, e) =>
    simp only [Except.ok.injEq, Prod.mk.injEq]
    constructor
    · intro h
      exact ⟨before, e, ⟨rfl, rfl⟩, h.symm⟩
    · rintro ⟨_, _, ⟨rfl, rfl⟩, rfl⟩
      rfl
  | .error (.malformed before) => simp
  | .error .unclosed => simp

/-- One token of the scan, if braces are still open behind it. -/
theorem scanBrace_cons_eq_ok {depth depth' : Nat} {isEmpty : Bool} {t : Token} {ts : List Token}
    {found : List Char × Bool} (hdepth : 0 < depth) (hkind : t.kind ≠ .malformed) (hpos : 0 < depth')
    (hstep : depth + [t.kind].count .openBrace = depth' + [t.kind].count .closeBrace) :
    scanBrace depth isEmpty (t :: ts) = .ok found ↔
      ∃ before e, scanBrace depth' (isEmpty && t.kind.isTrivia) ts = .ok (before, e) ∧
        found = (t.text ++ before, e) := by
  simp only [scanBrace]
  split
  · next hopen =>
    have hsame : depth' = depth + 1 := by simpa [hopen, eq_comm] using hstep
    have hzero : (depth == 0) = false := by simp; omega
    refine behind_eq_ok.trans ?_
    rw [hsame, hopen, hzero]
    rfl
  · next hclose =>
    have hsame : depth = depth' + 1 := by simpa [hclose] using hstep
    rw [if_neg (by omega)]
    refine behind_eq_ok.trans ?_
    rw [hsame, hclose, Nat.add_sub_cancel, show TokenKind.closeBrace.isTrivia = false from rfl,
      Bool.and_false]
  · next hmal => exact absurd hmal hkind
  · next hopen hclose _ =>
    have hopen : t.kind ≠ .openBrace := hopen
    have hclose : t.kind ≠ .closeBrace := hclose
    have hsame : depth = depth' := by simpa [List.count_singleton, hopen, hclose] using hstep
    refine behind_eq_ok.trans ?_
    rw [hsame]

/-- The scan finds the closing brace that makes the braces even. -/
theorem scanBrace_eq_ok_iff {depth : Nat} {isEmpty : Bool} {ts : List Token} {found : List Char × Bool}
    (hdepth : 0 < depth) : scanBrace depth isEmpty ts = .ok found ↔
      ∃ front t back, ts = front ++ t :: back ∧ t.kind = .closeBrace ∧
        ClosesAt depth (front.map Token.kind) ∧
        found = (front.flatMap Token.text, isEmpty && front.all (·.kind.isTrivia)) := by
  induction ts generalizing depth isEmpty found with
  | nil => simp [scanBrace]
  | cons t ts ih =>
    by_cases hmal : t.kind = .malformed
    · refine iff_of_false (by simp [scanBrace, hmal]) ?_
      rintro ⟨front, t', back, hts, hclose, hcloses, -⟩
      cases front with
      | nil =>
        cases hts
        rw [hmal] at hclose
        cases hclose
      | cons first front =>
        cases hts
        exact hcloses.wellFormed (by simp [hmal])
    by_cases hlast : t.kind = .closeBrace ∧ depth = 1
    · obtain ⟨hkind, rfl⟩ := hlast
      simp only [scanBrace, hkind, Nat.le_refl, if_true, Except.ok.injEq]
      constructor
      · rintro rfl
        exact ⟨[], t, ts, rfl, hkind, closesAt_nil.mpr rfl, by simp⟩
      · rintro ⟨front, t', back, hts, -, hcloses, rfl⟩
        cases front with
        | nil => simp
        | cons first front =>
          cases hts
          refine absurd ?_ (hcloses.first [] (by simp [hkind]))
          simp [Even]
    -- The token neither stops the scan nor makes it fail.
    obtain ⟨depth', hpos, hstep⟩ : ∃ depth', 0 < depth' ∧
        depth + [t.kind].count .openBrace = depth' + [t.kind].count .closeBrace := by
      by_cases hclose : t.kind = .closeBrace
      · have hdeep : depth ≠ 1 := fun h => hlast ⟨hclose, h⟩
        refine ⟨depth - 1, by omega, ?_⟩
        simp [hclose]
        omega
      · exact ⟨depth + [t.kind].count .openBrace, by omega, by simp [List.count_singleton, hclose]⟩
    rw [scanBrace_cons_eq_ok hdepth hmal hpos hstep]
    constructor
    · rintro ⟨before, e, hscan, rfl⟩
      obtain ⟨front, t', back, rfl, hclose, hcloses, hfound⟩ := (ih hpos).mp hscan
      cases hfound
      refine ⟨t :: front, t', back, rfl, hclose, ?_, by simp [Bool.and_assoc]⟩
      exact (closesAt_cons hmal hpos hstep).mpr hcloses
    · rintro ⟨front, t', back, hts, hclose, hcloses, rfl⟩
      cases front with
      | nil =>
        cases hts
        exact absurd ⟨hclose, closesAt_nil.mp hcloses⟩ hlast
      | cons first front =>
        cases hts
        have hcloses := (closesAt_cons hmal hpos hstep).mp hcloses
        exact ⟨_, _, (ih hpos).mpr ⟨front, t', back, rfl, hclose, hcloses, rfl⟩, by simp [Bool.and_assoc]⟩

/-! ## Texts in braces -/

theorem tokenize_openBrace (rest : List Char) :
    tokenize ('\x7b' :: rest) = ⟨.openBrace, ['\x7b']⟩ :: tokenize rest :=
  tokenize_cons (show (firstToken '\x7b' rest).text = ['\x7b'] from rfl) rfl

theorem tokenize_closeBrace (rest : List Char) :
    tokenize ('\x7d' :: rest) = ⟨.closeBrace, ['\x7d']⟩ :: tokenize rest :=
  tokenize_cons (show (firstToken '\x7d' rest).text = ['\x7d'] from rfl) rfl

theorem flatMap_closeBrace (back : List Token) :
    List.flatMap Token.text (⟨.closeBrace, ['\x7d']⟩ :: back) = '\x7d' :: back.flatMap Token.text := rfl

/-- The closing brace of an expression, by the tokens of the text. -/
theorem closingBrace_eq_ok_iff {c : Cursor} {rest : List Char} (hopen : c.rest = '\x7b' :: rest)
    {close : ClosingBrace} : closingBrace c = .ok close ↔
      ∃ front t back, tokenize c.rest = front ++ t :: back ∧ t.kind = .closeBrace ∧
        ClosesAt 0 (front.map Token.kind) ∧
        close = ⟨c.drop (front.flatMap Token.text).length, front.tail.all (·.kind.isTrivia)⟩ := by
  have hfirst : ∀ {kinds}, ClosesAt 0 (.openBrace :: kinds) ↔ ClosesAt 1 kinds :=
    closesAt_cons (by decide) (by decide) rfl
  -- The open brace itself is read first; behind it one brace is open.
  have hscan : ∀ found, scanBrace 0 true (tokenize c.rest) = .ok found ↔
      ∃ before e, scanBrace 1 true (tokenize rest) = .ok (before, e) ∧
        found = ('\x7b' :: before, e) := by
    intro found
    rw [hopen, tokenize_openBrace]
    exact behind_eq_ok (t := ⟨.openBrace, ['\x7b']⟩)
  have hclosing : closingBrace c = .ok close ↔ ∃ before e,
      scanBrace 0 true (tokenize c.rest) = .ok (before, e) ∧ close = ⟨c.drop before.length, e⟩ := by
    unfold closingBrace
    split
    · next before e hs =>
      simp only [hs, Except.ok.injEq, Prod.mk.injEq]
      constructor
      · intro h
        exact ⟨before, e, ⟨rfl, rfl⟩, h.symm⟩
      · rintro ⟨_, _, ⟨rfl, rfl⟩, rfl⟩
        rfl
    · next hs => simp [hs]
    · next hs => simp [hs]
  rw [hclosing]
  constructor
  · rintro ⟨before, e, hs, rfl⟩
    obtain ⟨before, e, hs, heq⟩ := (hscan _).mp hs
    cases heq
    obtain ⟨front, t, back, hts, hkind, hcloses, heq⟩ := (scanBrace_eq_ok_iff (by decide)).mp hs
    cases heq
    refine ⟨⟨.openBrace, ['\x7b']⟩ :: front, t, back, ?_, hkind, hfirst.mpr hcloses, by simp⟩
    rw [hopen, tokenize_openBrace, hts]
    rfl
  · rintro ⟨front, t, back, hts, hkind, hcloses, rfl⟩
    rw [hopen, tokenize_openBrace] at hts
    cases front with
    | nil =>
      cases hts
      cases hkind
    | cons first front =>
      obtain ⟨rfl, hlater⟩ := List.cons.inj hts
      have hfound : scanBrace 1 true (tokenize rest) = _ := (scanBrace_eq_ok_iff (by decide)).mpr
        ⟨front, t, back, hlater, hkind, hfirst.mp hcloses, rfl⟩
      exact ⟨_, _, (hscan _).mpr ⟨_, _, hfound, rfl⟩, by simp⟩

/-- A text in braces: its tokens are those up to the brace that closes the first one. `isEmpty` says
whether there is only trivia between the two. -/
def Braced (text : List Char) (isEmpty : Bool) : Prop :=
  ∃ front, tokenize text = front ++ [⟨.closeBrace, ['\x7d']⟩] ∧ text.head? = some '\x7b' ∧
    ClosesAt 0 (front.map Token.kind) ∧ isEmpty = front.tail.all (·.kind.isTrivia)

variable {c d : Cursor} {close : ClosingBrace} {text rest : List Char} {isEmpty : Bool}

theorem Braced.exists_rest (h : Braced text isEmpty) : ∃ rest, text = '\x7b' :: rest := by
  obtain ⟨front, -, hopen, -⟩ := h
  exact List.head?_eq_some_iff.mp hopen

theorem ClosesAt.wellFormed_tokens {depth : Nat} {front : List Token}
    (h : ClosesAt depth (front.map Token.kind)) : ∀ t ∈ front, t.kind ≠ .malformed := by
  intro t ht hkind
  exact h.wellFormed (List.mem_map.mpr ⟨t, ht, hkind⟩)

/-- What stands between an open brace and the one that closes it, with both of them, is a text in
braces. -/
theorem braced_of_closingBrace (hopen : c.rest = '\x7b' :: rest) (h : closingBrace c = .ok close) :
    ∃ text, c.Path text (close.place.drop 1) ∧ Braced text close.isEmpty := by
  obtain ⟨front, t, back, hts, hkind, hcloses, rfl⟩ := (closingBrace_eq_ok_iff hopen).mp h
  have hmem : t ∈ tokenize c.rest := by simp [hts]
  have htext : t.text = ['\x7d'] := text_of_mem_tokenize hmem hkind
  obtain ⟨kind, text⟩ := t
  subst hkind htext
  obtain ⟨hrest, -⟩ := tokenize_back hts
  rw [flatMap_closeBrace] at hrest
  have hall : c.Path (front.flatMap Token.text ++ ['\x7d'] ++ back.flatMap Token.text)
      (c.drop c.rest.length) := by
    rw [List.append_assoc, List.singleton_append, ← hrest]
    simpa using Cursor.path_drop c c.rest.length
  have hwhole := hall.at_length.1
  have hlast : (c.drop (front.flatMap Token.text).length).drop 1 = _ := hwhole.at_length.2.drop_length
  refine ⟨_, hlast ▸ hwhole, front, ?_, ?_, hcloses, rfl⟩
  · rw [tokenize_local hts hcloses.wellFormed_tokens, tokenize_closeBrace, tokenize]
    rw [flatMap_closeBrace]
    exact fun ch hch => hch
  · -- The first character is the open brace, since the tokens before the closing one are not empty.
    rw [hopen] at hrest
    cases hfront : front.flatMap Token.text with
    | nil => simp [hfront] at hrest
    | cons ch text =>
      rw [hfront, List.cons_append, List.cons.injEq] at hrest
      rw [← hrest.1]
      rfl

/-- A text in braces is closed at its end wherever it stands. -/
theorem closingBrace_of_braced (hp : c.Path text d) (h : Braced text isEmpty) :
    ∃ place, closingBrace c = .ok ⟨place, isEmpty⟩ ∧ place.Path ['\x7d'] d := by
  obtain ⟨after, rfl⟩ := h.exists_rest
  have hopen : c.rest = '\x7b' :: (after ++ d.rest) := hp.rest
  obtain ⟨front, hts, -, hcloses, rfl⟩ := h
  obtain ⟨htext, -⟩ := tokenize_back hts
  rw [htext, flatMap_closeBrace] at hp
  refine ⟨_, (closingBrace_eq_ok_iff hopen).mpr ⟨front, ⟨.closeBrace, ['\x7d']⟩, tokenize d.rest, ?_, rfl, hcloses, rfl⟩,
    hp.at_length.2⟩
  rw [hp.rest, List.append_assoc, tokenize_local hts hcloses.wellFormed_tokens]
  · exact congrArg _ (tokenize_closeBrace d.rest)
  · rw [flatMap_closeBrace]
    exact fun ch hch => hch

/-! ## Places of the tokens -/

theorem locate_append (base : Nat) (front back : List Token) :
    locate base (front ++ back) =
      locate base front ++ locate (base + byteLength (front.flatMap Token.text)) back := by
  induction front generalizing base with
  | nil => rfl
  | cons t front ih =>
    simp only [List.cons_append, locate, ih, List.flatMap_cons, byteLength_append, Nat.add_assoc]

theorem map_kind_locate (base : Nat) (ts : List Token) :
    (locate base ts).map Located.kind = ts.map Token.kind := by
  induction ts generalizing base with
  | nil => rfl
  | cons t ts ih => simp only [locate, List.map_cons, ih]

/-- The tokens with their places split as the tokens do. -/
theorem locate_eq_append {base : Nat} {ts : List Token} {front back : List Located} {t : Located}
    (h : locate base ts = front ++ t :: back) :
    ∃ front' t' back', ts = front' ++ t' :: back' ∧ front = locate base front' ∧ t.kind = t'.kind ∧
      t.span.start = base + byteLength (front'.flatMap Token.text) := by
  induction front generalizing base ts with
  | nil =>
    cases ts with
    | nil => simp [locate] at h
    | cons t' ts =>
      simp only [locate, List.nil_append, List.cons.injEq] at h
      exact ⟨[], t', ts, rfl, rfl, by rw [← h.1], by rw [← h.1]; rfl⟩
  | cons first front ih =>
    cases ts with
    | nil => simp [locate] at h
    | cons t' ts =>
      simp only [locate, List.cons_append, List.cons.injEq] at h
      obtain ⟨rfl, hlater⟩ := h
      obtain ⟨front', found, back', rfl, rfl, hkind, hstart⟩ := ih hlater
      refine ⟨t' :: front', found, back', rfl, rfl, hkind, ?_⟩
      rw [hstart, List.flatMap_cons, byteLength_append, Nat.add_assoc]

theorem isTrivia_iff {kind : TokenKind} :
    kind.isTrivia = true ↔ kind = .whitespace ∨ kind = .lineComment ∨ kind = .blockComment := by
  cases kind <;> simp [TokenKind.isTrivia]

theorem isTrivia_locate (base : Nat) (ts : List Token) :
    (∀ t ∈ (locate base ts).tail, t.kind = .whitespace ∨ t.kind = .lineComment ∨ t.kind = .blockComment) ↔
      ts.tail.all (·.kind.isTrivia) = true := by
  simp only [← isTrivia_iff]
  have hall : ∀ base (ts : List Token), (∀ t ∈ locate base ts, t.kind.isTrivia = true) ↔
      ∀ t ∈ ts, t.kind.isTrivia = true := by
    intro base ts
    have hkinds := map_kind_locate base ts
    rw [← List.forall_mem_map (f := Located.kind) (P := fun k => k.isTrivia = true), hkinds,
      List.forall_mem_map]
  rw [List.all_eq_true]
  cases ts with
  | nil => simp [locate]
  | cons t ts => exact hall _ ts

/-- A text in braces at a place of a text is closed at its end whatever the text before it and behind
it is. -/
theorem closingBrace_amid (h : Braced text isEmpty) (before other : List Char) :
    ∃ place, closingBrace (.atOffset (before ++ text ++ other) (byteLength before)) = .ok ⟨place, isEmpty⟩ ∧
      place.offset + 1 = byteLength before + byteLength text := by
  have hp : (Cursor.atOffset (before ++ text ++ other) (byteLength before)).Path text
      ⟨byteLength before + byteLength text, other⟩ :=
    ⟨by rw [Cursor.atOffset, List.append_assoc, dropBytes_append], rfl⟩
  obtain ⟨place, hclose, hlast⟩ := closingBrace_of_braced hp h
  exact ⟨place, hclose, hlast.offset.symm⟩

/-- **The brace that closes an expression.** A closing brace is found if and only if the tokens from
the open brace on reach, with none of them malformed, a closing brace at which as many braces are
closed as were opened; it is the first such brace. The expression is empty if and only if all tokens
between the two are whitespace or comments. What is behind the closing brace does not matter. -/
theorem closingBrace_matches {cs : List Char} {o : Nat} (hopen : charAt? cs o = some '\x7b') :
    (∀ close, closingBrace (.atOffset cs o) = .ok close ↔
      ∃ front t back, locate o (tokenize (dropBytes cs o)) = front ++ t :: back ∧ t.kind = .closeBrace ∧
        ClosesAt 0 (front.map Located.kind) ∧ close.place = .atOffset cs t.span.start ∧
        (close.isEmpty = true ↔ ∀ s ∈ front.tail,
          s.kind = .whitespace ∨ s.kind = .lineComment ∨ s.kind = .blockComment)) ∧
    ∀ close, closingBrace (.atOffset cs o) = .ok close → ∀ other, ∃ place,
      closingBrace (.atOffset (takeBytes cs (close.place.offset + 1) ++ other) o) =
          .ok ⟨place, close.isEmpty⟩ ∧
        place.offset = close.place.offset := by
  obtain ⟨c, hc, rfl, rest, hrest⟩ := Cursor.on_of_charAt? hopen
  have hdrop : dropBytes cs c.offset = c.rest := congrArg Cursor.rest hc.atOffset_eq
  rw [hc.atOffset_eq, hdrop]
  -- The place behind the first tokens, by its offset.
  have hplace : ∀ {front back : List Token}, tokenize c.rest = front ++ back →
      c.drop (front.flatMap Token.text).length =
        .atOffset cs (c.offset + byteLength (front.flatMap Token.text)) := by
    intro front back hts
    have hp := Cursor.path_drop c (front.flatMap Token.text).length
    rw [(tokenize_back hts).1, List.take_left] at hp
    rw [← hp.offset, (hc.reaches hp.reaches).atOffset_eq]
  refine ⟨fun close => ?_, fun close hclose other => ?_⟩
  · rw [closingBrace_eq_ok_iff hrest]
    constructor
    · rintro ⟨front, t, back, hts, hkind, hcloses, rfl⟩
      refine ⟨locate c.offset front, _, _, by rw [hts, locate_append]; rfl, hkind, ?_, hplace hts,
        (isTrivia_locate c.offset front).symm⟩
      rwa [map_kind_locate]
    · rintro ⟨front, t, back, hts, hkind, hcloses, hstart, hempty⟩
      obtain ⟨front', t', back', hts', rfl, hkind', hspan⟩ := locate_eq_append hts
      refine ⟨front', t', back', hts', hkind' ▸ hkind, map_kind_locate _ front' ▸ hcloses, ?_⟩
      obtain ⟨place, isEmpty⟩ := close
      rw [isTrivia_locate, ← Bool.eq_iff_iff] at hempty
      rw [hspan, ← hplace hts'] at hstart
      exact (ClosingBrace.mk.injEq ..).mpr ⟨hstart, hempty⟩
  · obtain ⟨text, htext, hbraced⟩ := braced_of_closingBrace hrest hclose
    obtain ⟨before, hbefore⟩ := hc
    obtain ⟨-, behind, -, hbrace⟩ := path_closingBrace hclose
    have hend : close.place.offset + 1 = c.offset + byteLength text := by
      rw [← htext.offset, (Cursor.path_cons hbrace).offset]
      rfl
    have hoffset : c.offset = byteLength before := by simpa [Cursor.ofText] using hbefore.offset
    have hfront : takeBytes cs (close.place.offset + 1) = before ++ text := by
      have hcs : cs = before ++ text ++ (close.place.drop 1).rest := by
        simpa [Cursor.ofText] using (hbefore.trans htext).rest
      rw [hend, hoffset, ← byteLength_append, hcs, takeBytes_append]
    obtain ⟨place, hfound, hplace⟩ := closingBrace_amid hbraced before other
    rw [hfront, hoffset]
    exact ⟨place, hfound, by omega⟩

/-- A brace in a string, one in a comment and a pair of them before the one that closes; and an expression
of blanks and comments, which have braces in them. -/
theorem closingBrace_matches_nested : (∃ close,
    charAt? "a\x7b'\x7d'/*\x7d*/\x7b\x7d\x7d'".toList 1 = some '\x7b' ∧
      closingBrace (.atOffset "a\x7b'\x7d'/*\x7d*/\x7b\x7d\x7d'".toList 1) = .ok close ∧
      close.place.offset = 12 ∧ close.isEmpty = false ∧
      (∃ front t back, locate 1 (tokenize "\x7b'\x7d'/*\x7d*/\x7b\x7d\x7d'".toList) = front ++ t :: back ∧
        t.kind = .closeBrace ∧ ClosesAt 0 (front.map Located.kind) ∧ t.span.start = 12) ∧
      ∀ other, ∃ place,
        closingBrace (.atOffset ("a\x7b'\x7d'/*\x7d*/\x7b\x7d\x7d".toList ++ other) 1) = .ok ⟨place, false⟩ ∧
          place.offset = 12) ∧
    ∃ close, charAt? "\x7b /*\x7d*/ //\x7d\n\x7d".toList 0 = some '\x7b' ∧
      closingBrace (.atOffset "\x7b /*\x7d*/ //\x7d\n\x7d".toList 0) = .ok close ∧
      close.place.offset = 12 ∧ close.isEmpty = true ∧
      ∃ front t back, locate 0 (tokenize "\x7b /*\x7d*/ //\x7d\n\x7d".toList) = front ++ t :: back ∧
        t.kind = .closeBrace ∧ t.span.start = 12 ∧
        ∀ s ∈ front.tail, s.kind = .whitespace ∨ s.kind = .lineComment ∨ s.kind = .blockComment := by
  have hopen : charAt? "a\x7b'\x7d'/*\x7d*/\x7b\x7d\x7d'".toList 1 = some '\x7b' := by decide
  have hclose : closingBrace (.atOffset "a\x7b'\x7d'/*\x7d*/\x7b\x7d\x7d'".toList 1) =
      .ok ⟨⟨12, "\x7d'".toList⟩, false⟩ := ok_of_toOption (by decide +kernel)
  obtain ⟨front, t, back, hts, hkind, hcloses, hplace, -⟩ :=
    ((closingBrace_matches hopen).1 _).mp hclose
  have hstart : 12 = t.span.start := congrArg Cursor.offset hplace
  have hopen' : charAt? "\x7b /*\x7d*/ //\x7d\n\x7d".toList 0 = some '\x7b' := by decide
  have hclose' : closingBrace (.atOffset "\x7b /*\x7d*/ //\x7d\n\x7d".toList 0) =
      .ok ⟨⟨12, "\x7d".toList⟩, true⟩ := ok_of_toOption (by decide +kernel)
  obtain ⟨front', t', back', hts', hkind', -, hplace', hempty⟩ := ((closingBrace_matches hopen').1 _).mp hclose'
  have hstart' : 12 = t'.span.start := congrArg Cursor.offset hplace'
  exact ⟨⟨_, hopen, hclose, rfl, rfl, ⟨front, t, back, hts, hkind, hcloses, hstart.symm⟩,
      (closingBrace_matches hopen).2 _ hclose⟩,
    _, hopen', hclose', rfl, rfl, front', t', back', hts', hkind', hstart'.symm, hempty.mp rfl⟩

end Mdx.Script

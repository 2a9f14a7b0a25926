/-
The tokens of a text tile it, malformed ones among them: none is empty, each
starts where the one before it stops, and together they are the text (`Tiles`).

Words and whitespace are runs of a class of characters. Such a token is told by
its characters alone, and what is behind it is not of the class, so no two words
and no two runs of whitespace come one after the other.
-/
import Mdx.Proofs.Script.Embedded
import Mathlib.Data.List.Chain

namespace Mdx.Script

open Cursor

variable {c : Char} {cs text : List Char} {base : Nat} {kind : TokenKind} {p : Char → Bool}

/-! ## Runs -/

theorem Run.bracket?_ne (h : Run kind p) (c : Char) : bracket? c ≠ some kind := by
  cases h <;> unfold bracket? <;> split <;> simp

theorem Run.slashToken_ne (h : Run kind p) (hkind : kind ≠ .lineComment) (cs : List Char) :
    (slashToken cs).kind ≠ kind := by
  unfold slashToken
  split
  · exact hkind.symm
  · split <;> cases h <;> simp
  · cases h <;> simp

theorem Run.quotedToken_ne (h : Run kind p) {other : TokenKind} (hquote : quote? c = some other) :
    (quotedToken other c cs).kind ≠ kind := by
  have hstring := quote?_isString hquote
  rintro rfl
  rcases quotedToken_kind other c cs with heq | heq
  · rw [heq] at h
    cases h <;> cases hstring
  · rw [heq] at h
    cases h

/-- A token of this kind starts with a character of the class. -/
theorem Run.starts (h : Run kind p) (hkind : kind ≠ .lineComment) (hfirst : (firstToken c cs).kind = kind) :
    p c = true := by
  unfold firstToken at hfirst
  split at hfirst
  · next other hbracket => exact absurd (hfirst ▸ hbracket) (h.bracket?_ne c)
  · next hquote => exact absurd hfirst (h.quotedToken_ne hquote)
  · next hbracket hquote =>
    split at hfirst
    · exact absurd hfirst (h.slashToken_ne hkind cs)
    · next hslash =>
      split at hfirst
      · next hspace =>
        subst hfirst
        cases h
        exact hspace
      · next hspace =>
        subst hfirst
        cases h
        simp only [beq_iff_eq] at hslash
        simp [isWordChar, hbracket, hquote, hslash, hspace]

/-- A token is such a run exactly if all its characters are of the class. -/
theorem Run.firstToken_iff (h : Run kind p) (hkind : kind ≠ .lineComment) :
    (firstToken c cs).kind = kind ↔ ∀ ch ∈ (firstToken c cs).text, p ch = true := by
  constructor
  · intro hfirst
    have hc := h.starts hkind hfirst
    rw [h.firstToken_eq hkind hc]
    exact List.forall_mem_cons.mpr ⟨hc, forall_mem_takeWhile⟩
  · intro hall
    obtain ⟨body, rest, htext, -⟩ := exists_firstToken_text c cs
    rw [htext] at hall
    rw [h.firstToken_eq hkind (hall c List.mem_cons_self)]

/-- Behind such a run comes a token of another kind. -/
theorem Run.next_ne (h : Run kind p) (hkind : kind ≠ .lineComment) (hfirst : (firstToken c cs).kind = kind)
    {d : Char} {rest : List Char} (happ : (firstToken c cs).text ++ d :: rest = c :: cs) :
    (firstToken d rest).kind ≠ kind := by
  intro hnext
  rw [h.firstToken_eq hkind (h.starts hkind hfirst)] at happ
  simp only [List.cons_append, List.cons.injEq, true_and] at happ
  have hstop := head?_behind_run happ rfl
  rw [h.starts hkind hnext] at hstop
  cases hstop

/-- The tokens of a text that are such runs are told by their characters. -/
theorem Run.of_mem_tokenize (h : Run kind p) (hkind : kind ≠ .lineComment) {t : Token} (ht : t ∈ tokenize cs) :
    t.kind = kind ↔ ∀ ch ∈ t.text, p ch = true := by
  obtain ⟨c, rest, rfl⟩ := exists_firstToken_of_mem ht
  exact h.firstToken_iff hkind

/-- Two such runs never come one after the other. -/
theorem Run.alternates (h : Run kind p) (hkind : kind ≠ .lineComment) (cs : List Char) :
    (tokenize cs).IsChain fun t u => t.kind = kind → u.kind ≠ kind := by
  fun_induction tokenize cs with
  | case1 => exact .nil
  | case2 c cs token ih =>
    cases hrest : (c :: cs).drop token.text.length with
    | nil =>
      rw [tokenize]
      exact .singleton token
    | cons d rest =>
      rw [hrest] at ih
      obtain ⟨body, later, htext, hlater⟩ := exists_firstToken_text d rest
      rw [tokenize_cons htext hlater] at ih ⊢
      refine .cons_cons (fun htoken => h.next_ne hkind htoken ?_) ih
      rw [← hrest]
      exact List.prefix_iff_eq_append.mp <| firstToken_prefix c cs

/-! ## Places -/

/-- No two words and no two runs of whitespace stand one behind the other. -/
theorem Run.apart (h : Run kind p) (hkind : kind ≠ .lineComment) (base : Nat) (cs : List Char) :
    (locate base (tokenize cs)).IsChain fun t u => t.kind = kind → u.kind ≠ kind := by
  have hkinds : ((tokenize cs).map Token.kind).IsChain fun k l => k = kind → l ≠ kind :=
    (List.isChain_map Token.kind).mpr (h.alternates hkind cs)
  rw [← map_kind_locate base] at hkinds
  exact (List.isChain_map Located.kind).mp hkinds

theorem start_of_head?_locate {ts : List Token} {t : Located} (h : (locate base ts).head? = some t) :
    t.span.start = base := by
  cases ts with
  | nil => cases h
  | cons token ts =>
    cases h
    rfl

/-- Each token starts where the one before it stops. -/
theorem locate_meets (base : Nat) (ts : List Token) :
    (locate base ts).IsChain fun t u => t.span.stop = u.span.start := by
  induction ts generalizing base with
  | nil => exact .nil
  | cons t ts ih => exact List.isChain_cons.mpr ⟨fun u hu => (start_of_head?_locate hu).symm, ih _⟩

theorem stop_of_getLast?_locate {ts : List Token} {t : Located} (h : (locate base ts).getLast? = some t) :
    t.span.stop = base + byteLength (ts.flatMap Token.text) := by
  induction ts generalizing base with
  | nil => cases h
  | cons token ts ih =>
    rw [List.flatMap_cons, byteLength_append, ← Nat.add_assoc]
    cases ts with
    | nil =>
      cases h
      rfl
    | cons next ts =>
      rw [locate, locate, List.getLast?_cons_cons] at h
      exact ih h

/-- The place of a token in the text that it was read from. -/
theorem exists_inText_of_mem_locate {t : Located} (h : t ∈ locate base (tokenize text)) :
    ∃ s : Span, s.InText text ∧ t.span = s.moved base ∧ slice text s = t.text := by
  have hadd := locate_add base 0 (tokenize text)
  rw [Nat.add_zero] at hadd
  rw [hadd] at h
  obtain ⟨u, hu, rfl⟩ := List.mem_map.mp h
  obtain ⟨a, b, ha, -, hab, hspan⟩ := apart_of_mem_locate (apart_ofText text) u hu
  refine ⟨u.span, ?_, rfl, ?_⟩
  · rw [hspan]
    exact Span.inText_spanTo ha.on hab.reaches
  · rw [hspan]
    exact ha.on.slice hab

/-! ## The tiling -/

/-- The tokens cut the text that stands at `base` in pieces, each of which is told apart from its
neighbours. -/
structure Tiles (base : Nat) (text : List Char) (ts : List Located) : Prop where
  /-- Only the empty text has no tokens. -/
  covers : ts = [] → text = []
  nonempty : ∀ t ∈ ts, t.span.start < t.span.stop
  starts : ∀ t ∈ ts.head?, t.span.start = base
  meets : ts.IsChain fun t u => t.span.stop = u.span.start
  stops : ∀ t ∈ ts.getLast?, t.span.stop = base + byteLength text
  /-- A token stands in the text at its span, between two characters at either end. -/
  stands : ∀ t ∈ ts, ∃ s : Span, s.InText text ∧ t.span = s.moved base ∧ slice text s = t.text
  word_iff : ∀ t ∈ ts, t.kind = .word ↔ ∀ ch ∈ t.text, isWordChar ch = true
  whitespace_iff : ∀ t ∈ ts, t.kind = .whitespace ↔ ∀ ch ∈ t.text, isSpace ch = true
  words_apart : ts.IsChain fun t u => t.kind = .word → u.kind ≠ .word
  whitespace_apart : ts.IsChain fun t u => t.kind = .whitespace → u.kind ≠ .whitespace

/-- **The tokens of a text tile it.** -/
theorem tokens_tile (base : Nat) (text : List Char) : Tiles base text (locate base (tokenize text)) where
  covers hnil := by
    have hkinds := map_kind_locate base (tokenize text)
    rw [hnil, List.map_nil, eq_comm, List.map_eq_nil_iff] at hkinds
    rw [← tokenize_flatMap_text text, hkinds]
    rfl
  nonempty t ht := by
    have hne := text_ne_nil_of_mem_tokenize (mem_of_mem_locate ht)
    have hpos : 0 < byteLength t.text := byteLength_pos hne
    have := (le_of_mem_locate ht).2
    omega
  starts t ht := start_of_head?_locate ht
  meets := locate_meets base _
  stops t ht := by
    have hstop := stop_of_getLast?_locate ht
    rwa [tokenize_flatMap_text] at hstop
  stands t ht := exists_inText_of_mem_locate ht
  word_iff t ht := Run.word.of_mem_tokenize (by decide) (mem_of_mem_locate ht)
  whitespace_iff t ht := Run.whitespace.of_mem_tokenize (by decide) (mem_of_mem_locate ht)
  words_apart := Run.word.apart (by decide) base text
  whitespace_apart := Run.whitespace.apart (by decide) base text

end Mdx.Script

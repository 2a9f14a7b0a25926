/-
Texts without code. The tokenizer passes over such a text and finds behind it the
code that is there by itself (`IsTrivia`), so texts of this kind can be put
together, and in front of a text they move its identifiers and change none
(`IsTrivia.identifiers_append`).

A line comment is such a text together with the line feed that ends it.
-/
import Mdx.Proofs.Script.Words

namespace Mdx.Script

variable {cs front body rest : List Char} {c : Char} {kind : TokenKind}

/-- The tokens of a text at `base` that are neither whitespace nor comments. -/
def codeTokens (base : Nat) (cs : List Char) : List Located :=
  (locate base (tokenize cs)).filter (!·.kind.isTrivia)

/-- There is no code in the text, and none comes about or is lost behind it. -/
def IsTrivia (cs : List Char) : Prop :=
  ∀ base rest, codeTokens base (cs ++ rest) = codeTokens (base + byteLength cs) rest

theorem codeTokens_nil (base : Nat) : codeTokens base [] = [] := by
  rw [codeTokens, tokenize]
  rfl

theorem isTrivia_nil : IsTrivia [] := fun _ _ => rfl

theorem IsTrivia.append {a b : List Char} (ha : IsTrivia a) (hb : IsTrivia b) : IsTrivia (a ++ b) := by
  intro base rest
  rw [List.append_assoc, ha, hb, byteLength_append, Nat.add_assoc]

/-- A first token that is trivia is passed over. -/
theorem codeTokens_cons {cs : List Char} (hfirst : firstToken c cs = ⟨kind, c :: body⟩) (hsplit : cs = body ++ rest)
    (hkind : kind.isTrivia = true) (base : Nat) :
    codeTokens base (c :: cs) = codeTokens (base + byteLength (c :: body)) rest := by
  have htokens := tokenize_cons (congrArg Token.text hfirst) hsplit
  rw [hfirst] at htokens
  have hcons := filter_locate_cons htokens (!·.isTrivia) base
  rwa [locate, List.filter_cons_of_neg (by simp [hkind])] at hcons

/-- A token that its last character closes stays the same whatever is behind it. -/
theorem isTrivia_of_closed (h : ∀ rest, firstToken c (body ++ rest) = ⟨kind, c :: body⟩)
    (hkind : kind.isTrivia = true) : IsTrivia (c :: body) :=
  fun base rest => codeTokens_cons (h rest) rfl hkind base

theorem isTrivia_comment (h : ¬ ['*', '/'] <:+: body) : IsTrivia ('/' :: '*' :: (body ++ ['*', '/'])) :=
  isTrivia_of_closed (firstToken_comment h) rfl

/-- Whitespace joins with what is behind it, of which no more than whitespace becomes part of the token. -/
theorem isTrivia_singleton (hc : isSpace c = true) : IsTrivia [c] := by
  intro base rest
  have hsplit := (List.takeWhile_append_dropWhile (p := isSpace) (l := rest)).symm
  have hskip := Run.whitespace.filter_locate_dropWhile (by decide) (!·.isTrivia) rfl
    (base + byteLength [c]) rest
  rw [List.singleton_append, codeTokens_cons (firstToken_of_isSpace hc rest) hsplit rfl, codeTokens, codeTokens,
    ← hskip]
  simp only [byteLength_cons, byteLength_nil, Nat.add_zero, Nat.add_assoc]

/-- A line comment and its line feed. -/
theorem isTrivia_lineComment (h : '\n' ∉ body) : IsTrivia ('/' :: '/' :: (body ++ ['\n'])) := by
  intro base rest
  have hbody : ∀ ch ∈ body, (ch != '\n') = true := by
    intro ch hch
    rw [bne_iff_ne]
    rintro rfl
    exact h hch
  have hfirst : firstToken '/' ('/' :: body ++ '\n' :: rest) = ⟨.lineComment, '/' :: '/' :: body⟩ := by
    rw [firstToken_slash, List.cons_append, slashToken, List.takeWhile_append_of_pos hbody]
    simp
  have hcomment := codeTokens_cons hfirst rfl rfl base
  have hfeed := isTrivia_singleton (c := '\n') rfl (base + byteLength ('/' :: '/' :: body)) rest
  simp only [List.cons_append, List.append_assoc, List.nil_append, byteLength_cons, byteLength_append] at hcomment hfeed ⊢
  rw [hcomment, hfeed]
  simp only [Nat.add_assoc]

/-! ## What is read behind such a text -/

/-- All its tokens are whitespace or comments, and none is malformed. -/
theorem IsTrivia.tokens (h : IsTrivia cs) : ∀ t ∈ tokenize cs, t.kind.isTrivia = true := by
  have hnone := h 0 []
  rw [List.append_nil, codeTokens_nil, codeTokens, List.filter_eq_nil_iff] at hnone
  intro t ht
  have hkinds : t.kind ∈ (locate 0 (tokenize cs)).map Located.kind := by
    rw [map_kind_locate]
    exact List.mem_map_of_mem ht
  obtain ⟨u, hu, hkind⟩ := List.mem_map.mp hkinds
  rw [← hkind]
  simpa using hnone u hu

/-- The identifiers of a text are those of its code. -/
theorem identifiers_eq_flatMap_codeTokens (cs : List Char) : identifiers cs =
    (codeTokens 0 cs).flatMap fun t => if t.kind = .word then wordIdentifiers t.span.start none t.text else [] := by
  rw [identifiers, codeTokens]
  induction locate 0 (tokenize cs) with
  | nil => rfl
  | cons t ts ih =>
    rw [List.flatMap_cons, ih]
    cases htrivia : t.kind.isTrivia with
    | false => rw [List.filter_cons_of_pos (by simp [htrivia]), List.flatMap_cons]
    | true =>
      have hword : t.kind ≠ .word := by
        intro hword
        rw [hword] at htrivia
        cases htrivia
      rw [List.filter_cons_of_neg (by simp [htrivia]), if_neg hword, List.nil_append]

theorem codeTokens_add (n : Nat) (cs : List Char) :
    codeTokens n cs = (codeTokens 0 cs).map fun t => ⟨t.kind, t.text, t.span.moved n⟩ := by
  have hmoved := locate_add n 0 (tokenize cs)
  rw [Nat.add_zero] at hmoved
  rw [codeTokens, codeTokens, hmoved, List.filter_map]
  rfl

/-- Behind a text without code a text has the identifiers that it has by itself. -/
theorem IsTrivia.identifiers_append (h : IsTrivia front) (rest : List Char) :
    identifiers (front ++ rest) = (identifiers rest).map (Identifier.moved (byteLength front)) := by
  have hcode := h 0 rest
  rw [Nat.zero_add, codeTokens_add (byteLength front) rest] at hcode
  rw [identifiers_eq_flatMap_codeTokens, identifiers_eq_flatMap_codeTokens, hcode, List.flatMap_map, List.map_flatMap]
  refine congrArg (List.flatMap · _) (funext fun t => ?_)
  split
  · exact wordIdentifiers_add _ _ none t.text
  · rfl

end Mdx.Script

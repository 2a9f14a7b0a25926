/-
The coarse tokens of embedded script. A document only has to know where its
script ends, so strings, templates and comments, which can hide brackets, are
told apart, and the rest is brackets, slashes and opaque words.

Tokens carry their text and no place; the texts of all tokens, one after the
other, are the input, so a token's place is the length of what is before it.
-/
import Mdx.Text.Span

namespace Mdx.Script

/-- What a token is. `malformed` is a string, template or comment that never closes. -/
inductive TokenKind where
  | whitespace
  | lineComment
  | blockComment
  | doubleQuoted
  | singleQuoted
  | template
  | openBrace
  | closeBrace
  | openParen
  | closeParen
  | openBracket
  | closeBracket
  | slash
  | word
  | malformed
  deriving DecidableEq, Repr

namespace TokenKind

/-- Whitespace and comments carry no code. -/
def isTrivia : TokenKind → Bool
  | whitespace | lineComment | blockComment => true
  | _ => false

/-- The three kinds of string literal. -/
def isString : TokenKind → Bool
  | doubleQuoted | singleQuoted | template => true
  | _ => false

/-- The bracket that closes this one. -/
def closer? : TokenKind → Option TokenKind
  | openBrace => some closeBrace
  | openParen => some closeParen
  | openBracket => some closeBracket
  | _ => none

/-- A closing bracket of any shape. -/
def isCloser : TokenKind → Bool
  | closeBrace | closeParen | closeBracket => true
  | _ => false

end TokenKind

/-- A token and its text. -/
structure Token where
  kind : TokenKind
  text : List Char
  deriving DecidableEq, Repr

/-- The characters a run of whitespace is made of. -/
def isSpace (c : Char) : Bool := c == ' ' || c == '\t' || c == '\r' || c == '\n' || c == '\x0c'

/-- The kind of a bracket. -/
def bracket? (c : Char) : Option TokenKind :=
  match c with
  | '\x7b' => some .openBrace
  | '\x7d' => some .closeBrace
  | '(' => some .openParen
  | ')' => some .closeParen
  | '[' => some .openBracket
  | ']' => some .closeBracket
  | _ => none

/-- The kind of string that a quote opens. -/
def quote? (c : Char) : Option TokenKind :=
  match c with
  | '\x22' => some .doubleQuoted
  | '\x27' => some .singleQuoted
  | '\x60' => some .template
  | _ => none

/-- A word runs up to the next bracket, quote, slash or space. -/
def isWordChar (c : Char) : Bool :=
  (bracket? c).isNone && (quote? c).isNone && c != '/' && !isSpace c

/-- The text through the first end of a comment, and the text behind it. -/
def splitComment? : List Char → Option (List Char × List Char)
  | [] => none
  | '*' :: '/' :: cs => some (['*', '/'], cs)
  | c :: cs => (splitComment? cs).map fun (a, b) => (c :: a, b)

/-- The longest run of string items at the start of a text, and the text behind it.

An item is a backslash and the character it escapes, or any other character but the quote. Only a
template has line feeds in its items. -/
def splitItems (quote : Char) (multiline : Bool) : List Char → List Char × List Char
  | [] => ([], [])
  | ['\\'] => ([], ['\\'])
  | '\\' :: d :: cs =>
    if d == '\n' && !multiline then ([], '\\' :: d :: cs)
    else
      let (a, b) := splitItems quote multiline cs
      ('\\' :: d :: a, b)
  | c :: cs =>
    if c == quote || (c == '\n' && !multiline) then ([], c :: cs)
    else
      let (a, b) := splitItems quote multiline cs
      (c :: a, b)

/-- The token of a text that starts with the quote `q`. -/
def quotedToken (kind : TokenKind) (q : Char) (cs : List Char) : Token :=
  let (items, rest) := splitItems q (kind == .template) cs
  if rest.head? == some q then ⟨kind, q :: items ++ [q]⟩ else ⟨.malformed, q :: items⟩

/-- The token of a text that starts with a slash. -/
def slashToken : List Char → Token
  | '/' :: cs => ⟨.lineComment, '/' :: '/' :: cs.takeWhile (· != '\n')⟩
  | '*' :: cs =>
    match splitComment? cs with
    | some (body, _) => ⟨.blockComment, '/' :: '*' :: body⟩
    | none => ⟨.malformed, ['/', '*']⟩
  | _ => ⟨.slash, ['/']⟩

/-- The first token of the text `c :: cs`. -/
def firstToken (c : Char) (cs : List Char) : Token :=
  match bracket? c, quote? c with
  | some kind, _ => ⟨kind, [c]⟩
  | none, some kind => quotedToken kind c cs
  | none, none =>
    if c == '/' then slashToken cs
    else if isSpace c then ⟨.whitespace, c :: cs.takeWhile isSpace⟩
    else ⟨.word, c :: cs.takeWhile isWordChar⟩

theorem slashToken_text_ne_nil (cs : List Char) : (slashToken cs).text ≠ [] := by
  unfold slashToken
  split
  · simp
  · split <;> simp
  · simp

/-- A token is never empty, so tokenizing moves on. -/
theorem firstToken_text_ne_nil (c : Char) (cs : List Char) : (firstToken c cs).text ≠ [] := by
  unfold firstToken
  split
  · simp
  · unfold quotedToken
    split
    split <;> simp
  · split
    · exact slashToken_text_ne_nil cs
    · split <;> simp

/-- The tokens of a text, in order. -/
def tokenize : List Char → List Token
  | [] => []
  | c :: cs =>
    let token := firstToken c cs
    token :: tokenize ((c :: cs).drop token.text.length)
  termination_by cs => cs.length
  decreasing_by
    have : 0 < (firstToken c cs).text.length :=
      List.length_pos_iff.2 (firstToken_text_ne_nil c cs)
    simp only [List.length_drop, List.length_cons]
    omega

/-- A kind of token and where it stands. -/
structure Located where
  kind : TokenKind
  text : List Char
  span : Span
  deriving DecidableEq, Repr

/-- The tokens with their places, the first one at `base`. -/
def locate (base : Nat) : List Token → List Located
  | [] => []
  | t :: ts =>
    let stop := base + byteLength t.text
    ⟨t.kind, t.text, ⟨base, stop⟩⟩ :: locate stop ts

end Mdx.Script

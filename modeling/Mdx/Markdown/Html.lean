/-
Markup in markdown: the tags, comments and the like that stand inside a line,
and the beginnings of blocks of markup.
-/
import Mdx.Markdown.Line

namespace Mdx.Markdown

/-- The names of tags that start a block of markup. -/
def blockTags : List String :=
  ["address", "article", "aside", "base", "basefont", "blockquote", "body", "caption", "center",
    "col", "colgroup", "dd", "details", "dialog", "dir", "div", "dl", "dt", "fieldset",
    "figcaption", "figure", "footer", "form", "frame", "frameset", "h1", "h2", "h3", "h4", "h5",
    "h6", "head", "header", "hr", "html", "iframe", "legend", "li", "link", "main", "menu",
    "menuitem", "nav", "noframes", "ol", "optgroup", "option", "p", "param", "search", "section",
    "summary", "table", "tbody", "td", "tfoot", "th", "thead", "title", "tr", "track", "ul"]

/-- The text in lower case, where it is ASCII. -/
def lower (cs : List Char) : List Char := cs.map Char.toLower

/-- The text that ends a block of markup which starts with the text behind an angle bracket: raw
text elements, comments, instructions, declarations and raw data. -/
def blockEnd? (cs : List Char) : Option String :=
  let raw := [("pre", "</pre>"), ("style", "</style>"), ("script", "</script>"),
    ("textarea", "</textarea>")]
  let opened := raw.find? fun (name, _) =>
    lower (cs.take name.length) == name.toList &&
      (cs.drop name.length).head?.all fun c => isLineSpace c || isLineBreak c || c == '>'
  match opened with
  | some (_, close) => some close
  | none =>
    if "!--".toList.isPrefixOf cs then some "-->"
    else if "?".toList.isPrefixOf cs then some "?>"
    else if "![CDATA[".toList.isPrefixOf cs then some "]]>"
    else
      match cs with
      | '!' :: c :: _ => if c.isAlpha then some ">" else none
      | _ => none

/-- Whether the text behind an angle bracket starts a block of markup by the name of its tag. -/
def startsBlockTag (cs : List Char) : Bool :=
  let named := if cs.head? == some '/' then cs.drop 1 else cs
  let name := named.takeWhile Char.isAlphanum
  let after := named.drop name.length
  blockTags.contains (String.ofList (lower name)) &&
    ((after.head?.all fun c => c == ' ' || c == '\t' || isLineBreak c || c == '>') ||
      "/>".toList.isPrefixOf after)

/-- The text behind the blanks of a tag; a tag inside a line may run over line ends. -/
def skipTagBlanks (multiline : Bool) (cs : List Char) : List Char :=
  cs.dropWhile fun c => isLineSpace c || (multiline && isLineBreak c)

/-- A character of an attribute value without quotes. -/
def isUnquoted (c : Char) : Bool :=
  !(c == ' ' || isLineBreak c || c == '\x22' || c == '\x27' || c == '=' || c == '<' || c == '>' ||
    c == '\x60')

/-- The text behind an attribute value. -/
def skipValue? (multiline : Bool) (cs : List Char) : Option (List Char) :=
  match cs with
  | [] => none
  | q :: rest =>
    if q == '\x22' || q == '\x27' then
      let value := rest.takeWhile (· != q)
      if value.length < rest.length && (multiline || !value.any isLineBreak) then
        some (rest.drop (value.length + 1))
      else none
    else
      let value := cs.takeWhile isUnquoted
      if value.isEmpty then none else some (cs.drop value.length)

/-- The text behind an attribute. -/
def skipAttribute? (multiline : Bool) (cs : List Char) : Option (List Char) :=
  match cs with
  | [] => none
  | c :: rest =>
    if c.isAlpha || c == '_' || c == ':' then
      let after := rest.dropWhile fun c =>
        c.isAlphanum || c == '_' || c == ':' || c == '.' || c == '-'
      match skipTagBlanks multiline after with
      | '=' :: value => skipValue? multiline (skipTagBlanks multiline value)
      | _ => some after
    else none

/-- The text behind the attributes of an open tag and its bracket. Each attribute has a blank before
it. -/
def skipAttributes? (multiline : Bool) : (fuel : Nat) → List Char → Option (List Char)
  | 0, _ => none
  | fuel + 1, cs =>
    let inner := skipTagBlanks multiline cs
    match inner with
    | [] => none
    | '>' :: rest => some rest
    | '/' :: '>' :: rest => some rest
    | '/' :: _ => none
    | _ =>
      if inner.length == cs.length then none
      else (skipAttribute? multiline inner).bind (skipAttributes? multiline fuel)

/-- The text behind the open or closing tag whose angle bracket is before the text. A closing tag
stays on its line. -/
def skipTag? (multiline : Bool) (cs : List Char) : Option (List Char) :=
  match cs with
  | '/' :: named =>
    if named.head?.any Char.isAlpha then
      match skipTagBlanks false (named.dropWhile fun c => c.isAlphanum || c == '-') with
      | '>' :: rest => some rest
      | _ => none
    else none
  | _ =>
    if cs.head?.any Char.isAlpha then
      let after := cs.dropWhile fun c => c.isAlphanum || c == '-'
      skipAttributes? multiline (after.length + 1) after
    else none

/-- The text behind the first occurrence of a text. -/
def skipThrough? (stop : List Char) : List Char → Option (List Char)
  | [] => if stop.isEmpty then some [] else none
  | c :: cs =>
    if stop.isPrefixOf (c :: cs) then some ((c :: cs).drop stop.length) else skipThrough? stop cs

/-- The text behind raw data. It runs to the first closing bracket; an angle bracket has to follow
that one and those next to it. -/
def skipRawData? (cs : List Char) : Option (List Char) :=
  let inner := cs.dropWhile (· != ']')
  match inner.dropWhile (· == ']') with
  | '>' :: rest => if inner.isEmpty then none else some rest
  | _ => none

/-- The text behind a declaration. It ends with an angle bracket, also with one that marks a quote at
the start of a line; `quoted` are those lines, by the characters left at the line ends before
them. -/
def skipDeclaration? (quoted : List Nat) (cs : List Char) : Option (List Char) :=
  let close := skipThrough? ['>'] cs
  match quoted.find? (· ≤ cs.length) with
  | none => close
  | some left =>
    if close.any (left ≤ ·.length) then close else some (cs.drop (cs.length - left))

/-- The text behind the markup that stands inside a line, whose angle bracket is before the text. -/
def skipInlineHtml? (quoted : List Nat) (cs : List Char) : Option (List Char) :=
  match cs with
  | '!' :: '-' :: '-' :: rest =>
    if ">".toList.isPrefixOf rest then some (rest.drop 1)
    else if "->".toList.isPrefixOf rest then some (rest.drop 2)
    else skipThrough? "-->".toList rest
  | '?' :: rest => skipThrough? "?>".toList rest
  | '!' :: '[' :: rest =>
    if "CDATA[".toList.isPrefixOf rest then skipRawData? (rest.drop 6) else none
  | '!' :: c :: rest => if c.isAlpha then skipDeclaration? quoted rest else none
  | _ => skipTag? true cs

/-- Whether a line holds one whole tag and nothing else; its angle bracket is before the text. -/
def isTagLine (cs : List Char) : Bool :=
  match skipTag? false (lineText cs) with
  | some after => (blankLine? after).isSome
  | none => false

/-- The address of a link that stands between angle brackets, the first of which is before the
text, and the text behind it. -/
def autolink? (cs : List Char) : Option (List Char × List Char) :=
  let address := cs.takeWhile fun c => c != '>' && c != '<' && !c.toNat.ble 32
  match cs.drop address.length with
  | '>' :: rest =>
    if isAddress address || isMailAddress address then some (address, rest) else none
  | _ => none
where
  /-- A scheme of two to thirty-two characters, a colon, and anything. -/
  isAddress (cs : List Char) : Bool :=
    let scheme := cs.takeWhile fun c => c.isAlphanum || c == '+' || c == '-' || c == '.'
    scheme.head?.any Char.isAlpha && 2 ≤ scheme.length && scheme.length ≤ 32 &&
      (cs.drop scheme.length).head? == some ':'
  /-- A name, an at sign and labels with points between them. -/
  isMailAddress (cs : List Char) : Bool :=
    let name := cs.takeWhile fun c => c.isAlphanum || ".!#$%&'*+/=?^_\x60\x7b|\x7d~-".toList.contains c
    match cs.drop name.length with
    | '@' :: domain => !name.isEmpty && (labels [] domain).all isLabel
    | _ => false
  /-- The parts between points. -/
  labels (seen : List Char) : List Char → List (List Char)
    | [] => [seen.reverse]
    | c :: cs => if c == '.' then seen.reverse :: labels [] cs else labels (c :: seen) cs
  /-- Up to sixty-three letters, digits and hyphens, with no hyphen at an end. -/
  isLabel (cs : List Char) : Bool :=
    !cs.isEmpty && cs.length ≤ 63 && cs.all (fun c => c.isAlphanum || c == '-') &&
      cs.head? != some '-' && cs.getLast? != some '-'

end Mdx.Markdown

/-
One tag of embedded markup: an opening tag with its attributes, a closing tag,
or one of the two tags of a fragment. Blanks, line ends among them, may stand
between the parts of a tag. Pairing tags is the work of those who read them.
-/
import Mdx.Error
import Mdx.Node
import Mdx.Script.Brace
import Mdx.Text.Cursor
import Mdx.Text.Letter

namespace Mdx

/-- A tag as it is written; the tags of a fragment have no name. -/
structure Tag where
  closing : Bool
  name : Option String
  attributes : List Attribute
  selfClosing : Bool
  span : Span
  deriving DecidableEq, Repr

namespace Tag

/-- A tag as errors display it. -/
def display (t : Tag) : String := "<" ++ (if t.closing then "/" else "") ++ t.name.getD "" ++ ">"

/-- The element a tag opens. -/
def element (t : Tag) : Element := ⟨t.name, t.attributes, t.selfClosing⟩

/-- A closing tag closes the open tag of the same name. -/
def closedBy (t closing : Tag) : Bool := t.name == closing.name

/-- A character a name can start with. -/
def isNameStart (c : Char) : Bool := isAlphabetic c || c == '$' || c == '_'

/-- A character a name can go on with. -/
def isNameChar (c : Char) : Bool :=
  isAlphanumeric c || c == '$' || c == '_' || c == '-' || c == '.' || c == ':'

/-- The name at the cursor and the place behind it. -/
def readName (c : Cursor) : String × Cursor :=
  (String.ofList (c.rest.takeWhile isNameChar), c.skipWhile isNameChar)

/-- The value of an attribute at the cursor and the place behind it, in the tag at `lt`. -/
def readValue (lt c : Cursor) : Except ParseError (AttributeValue × Cursor) :=
  match c.rest with
  | [] => .error ⟨.unexpectedEnd .value, lt.byteSpan⟩
  | ch :: rest =>
    if ch == '\x22' || ch == '\x27' then
      if rest.contains ch then
        let body := rest.takeWhile (· != ch)
        .ok (.literal (String.ofList body), c.drop (body.length + 2))
      else .error ⟨.unclosedQuote ch, c.byteSpan⟩
    else if ch == '\x7b' then do
      let close ← Script.closingBrace c
      let next := close.place.drop 1
      return (.expression (c.spanTo next.offset), next)
    else .error ⟨.unexpectedCharacter ch .beforeValue, c.charSpan⟩

/-- The attribute whose name is at the cursor and the place behind it, in the tag at `lt`. -/
def readAttribute (lt c : Cursor) : Except ParseError (Attribute × Cursor) :=
  let (name, nameEnd) := readName c
  let equals := nameEnd.skipBlanks
  if equals.rest.head? == some '=' then do
    let (value, next) ← readValue lt (equals.drop 1).skipBlanks
    return (⟨.named name (some value), c.spanTo next.offset⟩, next)
  else .ok (⟨.named name none, c.spanTo nameEnd.offset⟩, nameEnd)

/-- The spread at the cursor and the place behind it. -/
def readSpread (c : Cursor) : Except ParseError (Attribute × Cursor) := do
  let close ← Script.closingBrace c
  let next := close.place.drop 1
  let span := c.spanTo next.offset
  let body := (c.drop 1).upTo close.place.offset
  if "...".toList.isPrefixOf (trimLeft body) then return (⟨.spread span, span⟩, next)
  else throw ⟨.attributeExpression, span⟩

/-- A reader of the attributes from the cursor on: the attributes, whether the tag closes itself, and
the place behind the tag. -/
abbrev AttributesReader : Type := Cursor → Except ParseError (List Attribute × Bool × Cursor)

/-- One round of reading the attributes of the tag at `lt`: the first one is read here, and those
behind it by `onward`. -/
def attributesRound (lt : Cursor) (onward : AttributesReader) : AttributesReader := fun before => do
  let c := before.skipBlanks
  match c.rest with
  | [] => throw ⟨.unexpectedEnd .close, lt.byteSpan⟩
  | ch :: _ =>
    if ch == '>' then return ([], false, c.drop 1)
    else if ch == '/' then
      let after := (c.drop 1).skipBlanks
      match after.rest with
      | [] => throw ⟨.unexpectedEnd .closeAfterSlash, lt.byteSpan⟩
      | other :: _ =>
        if other == '>' then return ([], true, after.drop 1)
        else throw ⟨.unexpectedCharacter other .afterSlash, after.charSpan⟩
    else if ch == '\x7b' || isNameStart ch then
      let (first, next) ← if ch == '\x7b' then readSpread c else readAttribute lt c
      let (attributes, selfClosing, stop) ← onward next
      return (first :: attributes, selfClosing, stop)
    else throw ⟨.unexpectedCharacter ch .beforeAttribute, c.charSpan⟩

/-- Reads the attributes of the tag at `lt` round by round. Each round reads one attribute, so `fuel`
beyond the characters left changes nothing. -/
def readAttributes (lt : Cursor) : (fuel : Nat) → AttributesReader
  | 0 => fun _ => .error ⟨.unexpectedEnd .close, lt.byteSpan⟩
  | fuel + 1 => attributesRound lt (readAttributes lt fuel)

/-- The end of a closing tag or of a fragment's opening tag at `lt`: nothing but its bracket. -/
def readBareEnd (lt c : Cursor) (closing : Bool) : Except ParseError Cursor :=
  match c.rest with
  | [] => .error ⟨.unexpectedEnd .close, lt.byteSpan⟩
  | ch :: _ =>
    if ch == '>' then .ok (c.drop 1)
    else
      .error ⟨.unexpectedCharacter ch (if closing then .inClosingTag else .inFragment), c.charSpan⟩

/-- The name of the tag at `lt`, if it has one, and the place behind it and the blanks after it. -/
def readTagName (lt c : Cursor) : Except ParseError (Option String × Cursor) :=
  match c.rest with
  | [] => .error ⟨.unexpectedEnd .name, lt.byteSpan⟩
  | ch :: _ =>
    if ch == '>' then .ok (none, c)
    else if isNameStart ch then
      let (name, next) := readName c
      .ok (some name, next.skipBlanks)
    else .error ⟨.unexpectedCharacter ch .beforeName, c.charSpan⟩

/-- The tag whose angle bracket is at `lt`, and the place behind it. -/
def read (lt : Cursor) : Except ParseError (Tag × Cursor) := do
  let first := (lt.drop 1).skipBlanks
  let closing := first.rest.head? == some '/'
  let (name, c) ← readTagName lt (if closing then (first.drop 1).skipBlanks else first)
  if closing || name.isNone then
    let next ← readBareEnd lt c closing
    return (⟨closing, name, [], false, lt.spanTo next.offset⟩, next)
  else
    let (attributes, selfClosing, next) ← readAttributes lt (c.rest.length + 1) c
    return (⟨false, name, attributes, selfClosing, lt.spanTo next.offset⟩, next)

/-- Whether the angle bracket at the cursor is followed by what a tag starts with. -/
def startsAt (c : Cursor) : Bool :=
  match c.rest with
  | '<' :: ch :: _ => isNameStart ch || ch == '>' || ch == '/'
  | _ => false

end Tag

end Mdx

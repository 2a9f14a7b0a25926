/-
Inline content: the text of paragraphs and headings, in which escapes, code
spans, math, expressions and tags are told apart. All else is text.

An expression or a tag may run over several lines. In a paragraph, one that
ends behind the paragraph makes it longer; a heading is one line and cannot
grow.
-/
import Mdx.Block

namespace Mdx

/-- What inline content belongs to. -/
inductive Scope where
  | heading
  | paragraph (container : Option Tag)

namespace Scope

/-- The part of the document a scope is. -/
def enclosure : Scope → Enclosure
  | heading => .heading
  | paragraph _ => .paragraph

/-- The end of the content after a construct from `start` to `next`, if it was `stop` before. -/
def reach (math : Bool) (scope : Scope) (start next stop : Cursor) : Except ParseError Cursor :=
  if next.offset ≤ stop.offset then .ok stop
  else
    match scope with
    | heading => .error ⟨.headingLineEnd, start.byteSpan⟩
    | paragraph container => .ok (paragraphEnd math container next)

end Scope

/-- Inline content that was read: its nodes, the closing tag it ended at if there was one, the
place behind it and the end of the content it is part of. -/
structure InlineRun where
  nodes : List Node
  closing : Option Span
  next : Cursor
  stop : Cursor

/-- Puts nodes before a run. -/
def InlineRun.after (nodes : List Node) (run : InlineRun) : InlineRun :=
  { run with nodes := nodes ++ run.nodes }

/-- The text from one place to another, if there is any. -/
def textBetween (start stop : Nat) : List Node :=
  if start < stop then [.leaf .text ⟨start, stop⟩] else []

/-- The characters up to and with the first run of exactly `length` markers, of which `current`
are before the text. -/
def closingRun? (marker : Char) (length : Nat) : (current : Nat) → List Char → Option Nat
  | current, [] => if current == length then some 0 else none
  | current, c :: cs =>
    if c == marker then (closingRun? marker length (current + 1) cs).map (· + 1)
    else if current == length then some 0
    else (closingRun? marker length 0 cs).map (· + 1)

/-- The place behind the span that the run of markers at the cursor opens before `stop`, or behind
the run itself if nothing closes it. -/
def markedSpan (marker : Char) (c stop : Cursor) : Except Cursor Cursor :=
  let content := c.upTo stop.offset
  let run := runLength marker content
  match closingRun? marker run 0 (content.drop run) with
  | some length => .ok (c.drop (run + length))
  | none => .error (c.drop run)

/-- The kind of span that a marker opens. -/
def markedKind? (math : Bool) (c : Char) : Option NodeKind :=
  if c == '\x60' then some .inlineCode
  else if c == '$' && math then some .inlineMath
  else none

/-- A reader of inline content from `c` up to `stop`, or up to the tag that closes `enclosing`; the
text from `textStart` to `c` has no node yet. -/
abbrev InlineReader : Type :=
  (enclosing : Option Tag) → (textStart c stop : Cursor) → Except ParseError InlineRun

/-- One round of reading inline content: what stands at `c` is read here, and what is behind it by
`onward`. -/
def inlineRound (math : Bool) (scope : Scope) (onward : InlineReader) : InlineReader :=
  fun enclosing textStart c stop =>
    if stop.offset ≤ c.offset then
      .ok ⟨textBetween textStart.offset (min c.offset stop.offset), none, c, stop⟩
    else
      match c.rest with
      | [] => .ok ⟨textBetween textStart.offset (min c.offset stop.offset), none, c, stop⟩
      | ch :: rest =>
        let before := textBetween textStart.offset c.offset
        match markedKind? math ch with
        | some kind =>
          match markedSpan ch c stop with
          | .ok next => do
            let run ← onward enclosing next next stop
            return run.after (before ++ [.leaf kind (c.spanTo next.offset)])
          | .error next => onward enclosing textStart next stop
        | none =>
          if ch == '\\' then
            let escaped := rest.head?.any isAsciiPunctuation
            onward enclosing textStart (c.drop (if escaped then 2 else 1)) stop
          else if ch == '\x7b' then do
            let close ← Script.closingBrace c
            let next := close.place.drop 1
            let stop ← scope.reach math c next stop
            let body := (c.drop 1).spanTo close.place.offset
            let node := Node.leaf (.inlineExpression ⟨body, close.isEmpty⟩) (c.spanTo next.offset)
            let run ← onward enclosing next next stop
            return run.after (before ++ [node])
          else if ch == '<' && !rest.head?.any isBlank then do
            let (tag, next) ← Tag.read c
            let stop ← scope.reach math c next stop
            if tag.closing then
              match enclosing with
              | none => throw ⟨.unexpectedClosingTag tag.display none, tag.span⟩
              | some opening =>
                if opening.closedBy tag then return ⟨before, some tag.span, next, stop⟩
                else throw ⟨.unexpectedClosingTag tag.display (some opening.display), tag.span⟩
            else if tag.selfClosing then
              let run ← onward enclosing next next stop
              return run.after (before ++ [.leaf (.inlineElement tag.element) tag.span])
            else
              let inner ← onward (some tag) next next stop
              match inner.closing with
              | none => throw ⟨.unclosedTag tag.display scope.enclosure, c.byteSpan⟩
              | some closing =>
                let run ← onward enclosing inner.next inner.next inner.stop
                let node := Node.branch (.inlineElement tag.element) (c.spanTo closing.stop) inner.nodes
                return run.after (before ++ [node])
          else onward enclosing textStart (c.drop 1) stop

/-- Reads inline content round by round. Each round moves on by a character at least, so `fuel`
beyond the characters left changes nothing. -/
def readInline (math : Bool) (scope : Scope) : (fuel : Nat) → InlineReader
  | 0 => fun _ textStart c stop =>
    .ok ⟨textBetween textStart.offset (min c.offset stop.offset), none, c, stop⟩
  | fuel + 1 => inlineRound math scope (readInline math scope fuel)

/-- The nodes of the inline content from `c` to `stop`, and the end of the content, which may have
moved on. -/
def inlineNodes (math : Bool) (scope : Scope) (c stop : Cursor) :
    Except ParseError (List Node × Cursor) := do
  let run ← readInline math scope (c.rest.length + 1) none c c stop
  return (run.nodes, run.stop)

end Mdx

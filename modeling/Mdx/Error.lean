/-
Why a document does not parse. A document either parses whole or fails at its
first problem; the problem is a cause and the span it is blamed on.
-/
import Mdx.Text.Span

namespace Mdx

/-- Where in a tag a character stands that cannot stand there. -/
inductive TagPlace where
  | beforeName
  | inClosingTag
  | inFragment
  | afterSlash
  | beforeAttribute
  | beforeValue
  deriving DecidableEq, Repr

/-- What a tag was still waiting for when the text ended. -/
inductive TagNeed where
  | name
  | close
  | closeAfterSlash
  | value
  deriving DecidableEq, Repr

/-- The part of a document that ended before a tag was closed. -/
inductive Enclosure where
  | document
  | paragraph
  | heading
  deriving DecidableEq, Repr

/-- Why a document does not parse. Tags are given as they are displayed. -/
inductive Cause where
  /-- An expression holds a string, template or comment that never closes. -/
  | unterminatedInExpression
  /-- An expression has no closing brace. -/
  | unclosedExpression
  /-- A module statement holds a string, template or comment that never closes. -/
  | unterminatedInModule
  /-- A closing bracket in a module statement does not match the open one. -/
  | unexpectedBracket
  /-- A bracket in a module statement is never closed. -/
  | unclosedBracket
  /-- A closing tag with the name of no open tag; `expected` is the open tag, if one is open. -/
  | unexpectedClosingTag (closing : String) (expected : Option String)
  /-- The enclosing part ended before the tag was closed. -/
  | unclosedTag (tag : String) (within : Enclosure)
  /-- Something follows a closing tag that has to end its line. -/
  | contentAfterClosingTag
  /-- A character that cannot stand at this place of a tag. -/
  | unexpectedCharacter (c : Char) (place : TagPlace)
  /-- The text ended inside a tag. -/
  | unexpectedEnd (need : TagNeed)
  /-- An attribute expression that spreads nothing. -/
  | attributeExpression
  /-- A quoted attribute value that never closes. -/
  | unclosedQuote (quote : Char)
  /-- An expression or a tag that runs past the end of its heading. -/
  | headingLineEnd
  deriving DecidableEq, Repr

/-- A cause and the bytes it is blamed on. -/
structure ParseError where
  cause : Cause
  span : Span
  deriving DecidableEq, Repr

/-- A code point in hexadecimal, with four digits at least. -/
def hexCode (n : Nat) : String :=
  let digits := (Nat.toDigits 16 n).map Char.toUpper
  String.ofList (List.replicate (4 - digits.length) '0' ++ digits)

/-- A character as errors quote it: itself and its code point. -/
def describeChar (c : Char) : String :=
  "\x60" ++ c.toString ++ "\x60 (U+" ++ hexCode c.toNat ++ ")"

/-- What could stand at a place of a tag. -/
def TagPlace.message (c : Char) : TagPlace → String
  | beforeName =>
    "before name, expected a character that can start a name, such as a letter, \x60$\x60, or \x60_\x60" ++
      if c == '!' then
        " (note: to create a comment in MDX, use \x60\x7b/* text */\x7d\x60)"
      else ""
  | inClosingTag => "in closing tag, expected \x60>\x60"
  | inFragment => "in fragment, expected \x60>\x60"
  | afterSlash => "after self-closing slash, expected \x60>\x60 to end the tag"
  | beforeAttribute => "in tag, expected an attribute name, \x60/\x60, or \x60>\x60"
  | beforeValue =>
    "before attribute value, expected a character that can start an attribute value, such as " ++
      "\x60\x22\x60, \x60\x27\x60, or \x60\x7b\x60"

/-- What a tag was waiting for, in words. -/
def TagNeed.message : TagNeed → String
  | name =>
    "before name, expected a character that can start a name, such as a letter, \x60$\x60, or \x60_\x60"
  | close => "in tag, expected \x60>\x60"
  | closeAfterSlash => "after self-closing slash, expected \x60>\x60"
  | value => "before attribute value"

/-- The part of a document, as errors name it. -/
def Enclosure.message : Enclosure → String
  | document => "the document"
  | paragraph => "\x60paragraph\x60"
  | heading => "\x60heading\x60"

/-- The text of a cause. -/
def Cause.message : Cause → String
  | unterminatedInExpression =>
    "Could not parse expression: unterminated string, template or comment"
  | unclosedExpression =>
    "Unexpected end of file in expression, expected a corresponding closing brace for \x60\x7b\x60"
  | unterminatedInModule =>
    "Could not parse import/exports: unterminated string, template or comment"
  | unexpectedBracket => "Could not parse import/exports: unexpected closing bracket"
  | unclosedBracket => "Could not parse import/exports: unclosed bracket"
  | unexpectedClosingTag closing (some expected) =>
    "Unexpected closing tag \x60" ++ closing ++
      "\x60, expected corresponding closing tag for \x60" ++ expected ++ "\x60"
  | unexpectedClosingTag closing none =>
    "Unexpected closing tag \x60" ++ closing ++ "\x60, expected an open tag first"
  | unclosedTag tag within =>
    "Expected a closing tag for \x60" ++ tag ++ "\x60 before the end of " ++ within.message
  | contentAfterClosingTag =>
    "Unexpected content after closing tag, expected the end of the line"
  | unexpectedCharacter c place =>
    "Unexpected character " ++ describeChar c ++ " " ++ place.message c
  | unexpectedEnd need => "Unexpected end of file " ++ need.message
  | attributeExpression =>
    "Unexpected attribute expression, expected a spread such as \x60\x7b...props\x7d\x60"
  | unclosedQuote quote =>
    "Unexpected end of file in attribute value, expected a corresponding closing quote \x60" ++
      quote.toString ++ "\x60"
  | headingLineEnd =>
    "Unexpected line ending in heading, expected the expression or tag to close on the same line"

/-- The text of an error. -/
def ParseError.message (e : ParseError) : String := e.cause.message

end Mdx

/-
The tree of a document. A node has a kind, the span it covers and its children
in document order; a node that was put in and not read has no span.
-/
import Mdx.Extension
import Mdx.Text.Span

namespace Mdx

/-- An expression in braces. -/
structure Expression where
  /-- The bytes between the braces. -/
  body : Span
  /-- The body holds only whitespace and comments. -/
  isEmpty : Bool
  deriving DecidableEq, Repr

/-- The value of an attribute. -/
inductive AttributeValue where
  /-- A quoted text, without its quotes. -/
  | literal (text : String)
  /-- An expression; the span covers its braces. -/
  | expression (span : Span)
  deriving DecidableEq, Repr

/-- What an attribute says. -/
inductive AttributeKind where
  | named (name : String) (value : Option AttributeValue)
  /-- A spread; the span covers its braces. -/
  | spread (span : Span)
  deriving DecidableEq, Repr

/-- An attribute of a tag. -/
structure Attribute where
  kind : AttributeKind
  span : Span
  deriving DecidableEq, Repr

/-- The name of an attribute; a spread has none. -/
def Attribute.name? (a : Attribute) : Option String :=
  match a.kind with
  | .named name _ => some name
  | .spread _ => none

/-- An element as its opening tag gives it; a fragment has no name. -/
structure Element where
  name : Option String
  attributes : List Attribute
  selfClosing : Bool
  deriving DecidableEq, Repr

/-- An element as it is displayed. -/
def Element.display (e : Element) : String := "<" ++ e.name.getD "" ++ ">"

/-- What a node is. -/
inductive NodeKind where
  | root
  /-- A front matter block and the bytes between its fences. -/
  | frontmatter (dialect : Dialect) (value : Span)
  /-- A run of module lines; its children are the statements. -/
  | moduleBlock
  | moduleStatement
  | blockElement (element : Element)
  | inlineElement (element : Element)
  | blockExpression (expression : Expression)
  | inlineExpression (expression : Expression)
  | heading (depth : Nat)
  | paragraph
  | code (lang : Option String)
  | inlineCode
  | math
  | inlineMath
  | thematicBreak
  | text
  deriving DecidableEq, Repr

namespace NodeKind

/-- The name of a kind. -/
def name : NodeKind → String
  | root => "Root"
  | frontmatter .. => "Frontmatter"
  | moduleBlock => "ModuleBlock"
  | moduleStatement => "ModuleStatement"
  | blockElement _ => "BlockElement"
  | inlineElement _ => "InlineElement"
  | blockExpression _ => "BlockExpression"
  | inlineExpression _ => "InlineExpression"
  | heading _ => "Heading"
  | paragraph => "Paragraph"
  | code _ => "Code"
  | inlineCode => "InlineCode"
  | math => "Math"
  | inlineMath => "InlineMath"
  | thematicBreak => "ThematicBreak"
  | text => "Text"

/-- The element of an element node. -/
def element? : NodeKind → Option Element
  | blockElement e | inlineElement e => some e
  | _ => none

/-- The expression of an expression node. -/
def expression? : NodeKind → Option Expression
  | blockExpression e | inlineExpression e => some e
  | _ => none

end NodeKind

/-- A node of the tree. -/
inductive Node where
  | mk (kind : NodeKind) (span : Option Span) (children : List Node)
  deriving Repr

namespace Node

/-- What the node is. -/
def kind : Node → NodeKind
  | mk k _ _ => k

/-- The bytes the node covers. -/
def span : Node → Option Span
  | mk _ s _ => s

/-- The children in document order. -/
def children : Node → List Node
  | mk _ _ cs => cs

/-- A node without children. -/
def leaf (kind : NodeKind) (span : Span) : Node := mk kind (some span) []

/-- A node with children. -/
def branch (kind : NodeKind) (span : Span) (children : List Node) : Node := mk kind (some span) children

/-- Where the node starts. -/
def start? (n : Node) : Option Nat := n.span.map Span.start

/-- Where the node stops. -/
def stop? (n : Node) : Option Nat := n.span.map Span.stop

/-- The bytes from the first child that has a span to the last one that has. -/
def childrenSpan (n : Node) : Option Span := do
  let start ← n.children.findSome? start?
  let stop ← n.children.reverse.findSome? stop?
  return ⟨start, stop⟩

/-- The text of the node. -/
def textIn (cs : List Char) (n : Node) : Option (List Char) := n.span.map (slice cs)

end Node

mutual

/-- Trees are equal if their nodes and all below them are. -/
def Node.decEq : (m n : Node) → Decidable (m = n)
  | .mk kind span children, .mk kind' span' children' =>
    have := decEqAll children children'
    decidable_of_decidable_of_iff (p := kind = kind' ∧ span = span' ∧ children = children')
      (Node.mk.injEq kind span children kind' span' children').to_iff.symm

/-- Lists of trees are equal tree by tree. -/
def decEqAll : (ms ns : List Node) → Decidable (ms = ns)
  | [], [] => .isTrue rfl
  | [], _ :: _ => .isFalse nofun
  | _ :: _, [] => .isFalse nofun
  | m :: ms, n :: ns =>
    have := m.decEq n
    have := decEqAll ms ns
    decidable_of_decidable_of_iff (p := m = n ∧ ms = ns) (List.cons.injEq m ms n ns).to_iff.symm

end

instance : DecidableEq Node := Node.decEq

/-- A step of a walk over a tree: into a node or out of it. -/
inductive WalkStep where
  | enter (node : Node)
  | leave (node : Node)

mutual

/-- Walks over a tree: into a node, over its children, out of the node. -/
def Node.walk : Node → List WalkStep
  | .mk k s cs => .enter (.mk k s cs) :: (walkAll cs ++ [.leave (.mk k s cs)])

/-- Walks over trees one after the other. -/
def walkAll : List Node → List WalkStep
  | [] => []
  | n :: ns => n.walk ++ walkAll ns

end

mutual

/-- The nodes of a tree, each before its children. -/
def Node.preorder : Node → List Node
  | .mk k s cs => .mk k s cs :: preorderAll cs

/-- The nodes of trees, each before its children. -/
def preorderAll : List Node → List Node
  | [] => []
  | n :: ns => n.preorder ++ preorderAll ns

end

/-- The nodes of a tree that satisfy `p`, each before its children. -/
def Node.descendants (p : Node → Bool) (n : Node) : List Node := n.preorder.filter p

end Mdx

/-
Language services. A service answers questions about one view of a document,
and all its answers are places in that view. What a service does not answer is
answered by nothing at all.
-/
import Mdx.Virtual

namespace Mdx

/-- How grave a diagnostic is. -/
inductive Severity where
  | error
  | warning
  | information
  | hint
  deriving DecidableEq, Repr

/-- The number of a severity in the editor protocol. -/
def Severity.code : Severity → Nat
  | error => 1
  | warning => 2
  | information => 3
  | hint => 4

/-- What a completion stands for. -/
inductive CompletionKind where
  | plainVariable
  | component
  deriving DecidableEq, Repr

/-- The number of a kind of completion in the editor protocol. -/
def CompletionKind.code : CompletionKind → Nat
  | plainVariable => 6
  | component => 7

/-- What a symbol of an outline stands for. -/
inductive SymbolKind where
  | importedName
  | heading
  | classDeclaration
  | function
  | plainVariable
  | constant
  deriving DecidableEq, Repr

/-- The number of a kind of symbol in the editor protocol. -/
def SymbolKind.code : SymbolKind → Nat
  | importedName => 2
  | heading => 3
  | classDeclaration => 5
  | function => 12
  | plainVariable => 13
  | constant => 14

/-- What a fold hides. -/
inductive FoldKind where
  | region
  | imports
  deriving DecidableEq, Repr

/-- The name of a kind of fold in the editor protocol. -/
def FoldKind.name : FoldKind → String
  | region => "region"
  | imports => "imports"

/-- A place that a diagnostic points to. -/
structure Related where
  range : Span
  message : String
  deriving DecidableEq, Repr

/-- Something to tell about a place. -/
structure Diagnostic where
  range : Span
  severity : Severity
  code : Option String
  message : String
  /-- Who tells it. -/
  source : String
  related : List Related
  deriving DecidableEq, Repr

/-- What to show about a place, in markdown. -/
structure Hover where
  range : Option Span
  contents : String
  deriving DecidableEq, Repr

/-- A word to put at a place; `editRange` is the text it takes the place of. -/
structure Completion where
  label : String
  kind : CompletionKind
  detail : Option String
  editRange : Option Span
  deriving DecidableEq, Repr

/-- A change of a text. -/
structure TextEdit where
  range : Span
  newText : String
  deriving DecidableEq, Repr

/-- A span that can be folded. -/
structure Fold where
  range : Span
  kind : Option FoldKind
  deriving DecidableEq, Repr

/-- An entry of an outline without what is below it. -/
structure SymbolEntry where
  name : String
  detail : Option String
  kind : SymbolKind
  range : Span
  /-- The part of the range to show when the entry is picked. -/
  selection : Span
  deriving DecidableEq, Repr

/-- An entry of an outline and what is below it. -/
inductive Symbol where
  | mk (entry : SymbolEntry) (children : List Symbol)
  deriving Repr

namespace Symbol

/-- The entry itself. -/
def entry : Symbol → SymbolEntry
  | mk e _ => e

/-- What is below the entry. -/
def children : Symbol → List Symbol
  | mk _ cs => cs

end Symbol

/-- Why a service gives no answer. -/
inductive ServiceError where
  | wrongLanguage (service found : Language)
  | outOfBounds (offset length : Nat)
  | invalidName (name : String)
  deriving DecidableEq, Repr

/-- The text of an error. -/
def ServiceError.message : ServiceError → String
  | wrongLanguage service found =>
    service.id ++ " service cannot analyze a " ++ found.id ++ " document"
  | outOfBounds offset length =>
    "offset " ++ toString offset ++ " is outside a document of " ++ toString length ++ " bytes"
  | invalidName name => "\x60" ++ name ++ "\x60 is not a valid identifier"

/-- A service for the views of one language. -/
structure Service where
  language : Language
  diagnostics : VirtualDocument → Except ServiceError (List Diagnostic) := fun _ => .ok []
  hover : VirtualDocument → Nat → Except ServiceError (Option Hover) := fun _ _ => .ok none
  completions : VirtualDocument → Nat → Except ServiceError (List Completion) := fun _ _ => .ok []
  definition : VirtualDocument → Nat → Except ServiceError (List Span) := fun _ _ => .ok []
  rename : VirtualDocument → Nat → String → Except ServiceError (List TextEdit) := fun _ _ _ => .ok []
  folds : VirtualDocument → Except ServiceError (List Fold) := fun _ => .ok []
  symbols : VirtualDocument → Except ServiceError (List Symbol) := fun _ => .ok []

/-- Goes on only with a view of the language. -/
def expectLanguage (language : Language) (d : VirtualDocument) : Except ServiceError Unit :=
  if d.language = language then .ok () else .error (.wrongLanguage language d.language)

/-- Goes on only with a place in the view, its end included. -/
def checkOffset (d : VirtualDocument) (offset : Nat) : Except ServiceError Unit :=
  let length := byteLength d.text
  if offset ≤ length then .ok () else .error (.outOfBounds offset length)

end Mdx

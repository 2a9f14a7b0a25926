/-
The service for script views. It knows the names that the module binds and
looks names up by their text alone; there are no scopes. A name that is bound in
text of no source, like the component itself, counts as not bound.
-/
import Mdx.Script.Binding
import Mdx.Script.Identifier
import Mdx.Service.Basic

namespace Mdx

/-- The diagnostics that can be turned off. -/
structure DiagnosticsOptions where
  unusedImports : Bool := true
  undefinedComponents : Bool := true
  deriving DecidableEq, Repr

namespace ScriptService

open Mdx.Script

/-- What is known of a script view. -/
structure Analysis where
  text : List Char
  bindings : List Binding
  identifiers : List Identifier

/-- Looks through a script view. -/
def analyze (d : VirtualDocument) : Analysis :=
  ⟨d.text, (Script.bindings d.text).filter fun b => (d.mapping.toSource b.span.start).isSome,
    Script.identifiers d.text⟩

/-- The identifiers other than the bound one that refer to a binding. -/
def references (identifiers : List Identifier) (b : Binding) : List Identifier :=
  identifiers.filter fun id => !id.isProperty && id.name == b.name && id.span != b.span

/-- The identifier that an offset is in or at an end of. -/
def identifierAt? (identifiers : List Identifier) (offset : Nat) : Option Identifier :=
  identifiers.find? fun id => id.span.start ≤ offset && offset ≤ id.span.stop

/-- The identifier at an offset and the binding it refers to: the one it is itself, or else the
first of its name. -/
def Analysis.resolve? (a : Analysis) (offset : Nat) : Option (Identifier × Binding) := do
  let id ← identifierAt? a.identifiers offset
  if id.isProperty then none
  else
    let b ← (a.bindings.find? (·.span == id.span)).or (a.bindings.find? (·.name == id.name))
    return (id, b)

/-- A name that markup takes for a component. -/
def isComponentName (name : String) : Bool := name.toList.head?.any isUppercase

/-- A diagnostic of this service. -/
def report (range : Span) (severity : Severity) (code message : String) (related : List Related) :
    Diagnostic := ⟨range, severity, some code, message, "mdx-script", related⟩

/-- The bindings whose names were bound before; `seen` are the first of each name. -/
def duplicates (seen : List Binding) : List Binding → List Diagnostic
  | [] => []
  | b :: bs =>
    match seen.find? (·.name == b.name) with
    | some first =>
      report b.span .warning "duplicate-binding" ("\x60" ++ b.name ++ "\x60 is declared more than once")
        [⟨first.span, "\x60" ++ first.name ++ "\x60 is first declared here"⟩] :: duplicates seen bs
    | none => duplicates (seen ++ [b]) bs

/-- The imports that nothing refers to. -/
def unusedImports (a : Analysis) : List Diagnostic :=
  (a.bindings.filter fun b => b.isImport && (references a.identifiers b).isEmpty).map fun b =>
    report b.span .hint "unused-import" ("\x60" ++ b.name ++ "\x60 is imported but never used") []

/-- The components in tags whose names are not bound. -/
def undefinedComponents (a : Analysis) : List Diagnostic :=
  (a.identifiers.filter fun id =>
    precededBy a.text id.span.start '<' && isComponentName id.name &&
      !a.bindings.any (·.name == id.name)).map fun id =>
    report id.span .warning "undefined-component"
      ("\x60" ++ id.name ++ "\x60 is not imported or exported in this document") []

/-- All diagnostics of a script view in the order of their places. -/
def diagnostics (options : DiagnosticsOptions) (d : VirtualDocument) :
    Except ServiceError (List Diagnostic) := do
  expectLanguage .script d
  let a := analyze d
  let found := duplicates [] a.bindings ++
    (if options.unusedImports then unusedImports a else []) ++
    (if options.undefinedComponents then undefinedComponents a else [])
  return found.mergeSort fun x y => x.range.start ≤ y.range.start

/-- Goes on with what is known of a script view that has the offset. -/
def analyzeAt (d : VirtualDocument) (offset : Nat) : Except ServiceError Analysis := do
  expectLanguage .script d
  checkOffset d offset
  return analyze d

/-- The statement that binds the name at an offset. -/
def hover (d : VirtualDocument) (offset : Nat) : Except ServiceError (Option Hover) := do
  let a ← analyzeAt d offset
  return (a.resolve? offset).map fun (id, b) =>
    ⟨some id.span, "\x60\x60\x60javascript\n" ++ String.ofList (slice a.text b.statement) ++
      "\n\x60\x60\x60\n" ++ b.detail⟩

/-- The first binding of each name. -/
def distinctNames : List Binding → List Binding
  | [] => []
  | b :: bs => b :: (distinctNames bs).filter (·.name != b.name)

/-- The names that can be put at an offset, in place of the identifier that ends there. Behind a
point there are none, and behind an angle bracket only components. -/
def completions (d : VirtualDocument) (offset : Nat) : Except ServiceError (List Completion) := do
  let a ← analyzeAt d offset
  let typed := a.identifiers.find? fun id => id.span.start < offset && id.span.stop == offset
  let start := (typed.map (·.span.start)).getD offset
  if precededBy a.text start '.' then return []
  else
    let tagOnly := precededBy a.text start '<'
    let offered := a.bindings.filter fun b => !tagOnly || isComponentName b.name
    return (distinctNames offered).map fun b =>
      ⟨b.name, if isComponentName b.name then .component else .plainVariable, some b.detail,
        typed.map (·.span)⟩

/-- The place that binds the name at an offset. -/
def definition (d : VirtualDocument) (offset : Nat) : Except ServiceError (List Span) := do
  let a ← analyzeAt d offset
  return ((a.resolve? offset).map fun (_, b) => b.span).toList

/-- What the bound name itself becomes: an import in braces keeps its name under an alias. -/
def renamedDeclaration (b : Binding) (newName : String) : String :=
  match b.kind with
  | .imported _ true => b.name ++ " as " ++ newName
  | _ => newName

/-- The changes that give the binding at an offset another name, in the order of their places. -/
def rename (d : VirtualDocument) (offset : Nat) (newName : String) :
    Except ServiceError (List TextEdit) := do
  expectLanguage .script d
  checkOffset d offset
  if isValidName newName.toList then
    let a := analyze d
    match a.resolve? offset with
    | none => return []
    | some (_, b) =>
      let edits := ⟨b.span, renamedDeclaration b newName⟩ ::
        (references a.identifiers b).map fun id => (⟨id.span, newName⟩ : TextEdit)
      return edits.mergeSort fun x y => x.range.start ≤ y.range.start
  else throw (.invalidName newName)

/-- The kind of a binding in an outline. -/
def symbolKind (b : Binding) : SymbolKind :=
  match b.kind with
  | .imported .. => .importedName
  | .exported keyword =>
    if keyword == "function" || keyword == "function*" then .function
    else if keyword == "class" then .classDeclaration
    else if keyword == "const" then .constant
    else .plainVariable

/-- The bindings as an outline. -/
def symbols (d : VirtualDocument) : Except ServiceError (List Symbol) := do
  expectLanguage .script d
  return (analyze d).bindings.map fun b =>
    .mk ⟨b.name, some b.detail, symbolKind b, b.statement, b.span⟩ []

/-- The service for script views. -/
def service (options : DiagnosticsOptions) : Service where
  language := .script
  diagnostics := diagnostics options
  hover := hover
  completions := completions
  definition := definition
  rename := rename
  symbols := symbols

end ScriptService

end Mdx

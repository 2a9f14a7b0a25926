/-
Virtual documents: the views of a document that analyzers of one language read,
each with its mapping to the document. A document that does not parse has a
fixed script view and its own text as prose, both without mapping.
-/
import Mdx.Component
import Mdx.Document
import Mdx.Prose
import Mdx.Regions

namespace Mdx

/-- The language of a view. -/
inductive Language where
  | script
  | markdown
  | yaml
  | toml
  deriving DecidableEq, Repr

namespace Language

/-- The name of a language in the editor protocol. -/
def id : Language → String
  | script => "javascriptreact"
  | markdown => "markdown"
  | yaml => "yaml"
  | toml => "toml"

/-- The name of a language in listings. -/
def name : Language → String
  | script => "Script"
  | markdown => "Markdown"
  | yaml => "Yaml"
  | toml => "Toml"

/-- The place of a language in listings. -/
def rank : Language → Nat
  | script => 0
  | markdown => 1
  | yaml => 2
  | toml => 3

end Language

/-- The language of a front matter dialect. -/
def Dialect.language : Dialect → Language
  | yaml => .yaml
  | toml => .toml

/-- One view of a document. -/
structure VirtualDocument where
  id : String
  language : Language
  text : List Char
  mapping : Mapping
  deriving DecidableEq, Repr

/-- A view and the views embedded in it. -/
structure DocumentGroup where
  main : VirtualDocument
  embedded : List VirtualDocument
  deriving DecidableEq, Repr

/-- The view and those embedded in it. -/
def DocumentGroup.all (g : DocumentGroup) : List VirtualDocument := g.main :: g.embedded

/-- How a document is compiled. -/
structure CompileOptions where
  /-- The script view asks to be checked. -/
  checkJs : Bool := false
  /-- The module of the markup runtime. -/
  jsxImportSource : String := "react"
  extensions : List Extension := ParseOptions.standard.extensions
  deriving DecidableEq, Repr

/-- The parser's part of the options. -/
def CompileOptions.parseOptions (o : CompileOptions) : ParseOptions := ⟨o.extensions⟩

/-- A document's tree, or why it has none, and its views. -/
structure Compilation where
  tree : Except ParseError Node
  documents : List DocumentGroup

namespace Compilation

/-- The error of a document that does not parse. -/
def error? (c : Compilation) : Option ParseError :=
  match c.tree with
  | .ok _ => none
  | .error e => some e

/-- The tree of a document that parses. -/
def tree? (c : Compilation) : Option Node := c.tree.toOption

/-- All views, those embedded included. -/
def allDocuments (c : Compilation) : List VirtualDocument := c.documents.flatMap DocumentGroup.all

end Compilation

/-- The view of a text that is generated. -/
def VirtualDocument.ofGenerated (id : String) (language : Language) (g : GeneratedText) :
    VirtualDocument := ⟨id, language, g.text, g.mapping⟩

/-- The view of a front matter value. -/
def frontmatterDocument (source : List Char) (r : FrontmatterRegion) : VirtualDocument :=
  .ofGenerated "frontmatter" r.dialect.language (.ofPieces source [.copied r.value])

/-- The views of a document with the tree `root`. -/
def viewsOf (options : CompileOptions) (source : List Char) (root : Node) : List DocumentGroup :=
  let regions := Regions.ofTree root
  let script := Component.view options.checkJs options.jsxImportSource source regions.modules
    regions.code
  let prose := Prose.view source regions.nonProse regions.content
  [⟨.ofGenerated "jsx" .script script, []⟩,
    ⟨.ofGenerated "md" .markdown prose, regions.frontmatter.map (frontmatterDocument source)⟩]

/-- The views of a document that does not parse. -/
def fallbackViews (source : List Char) : List DocumentGroup :=
  [⟨⟨"jsx", .script, Component.fallback.toList, .empty⟩, []⟩,
    ⟨⟨"md", .markdown, source, .empty⟩, []⟩]

/-- Compiles a document. -/
def compile (options : CompileOptions) (source : List Char) : Compilation :=
  match parse options.parseOptions source with
  | .ok root => ⟨.ok root, viewsOf options source root⟩
  | .error e => ⟨.error e, fallbackViews source⟩

/-- A document that is open for editing, and all that was derived from its text. -/
structure VirtualFile where
  id : String
  source : List Char
  options : CompileOptions
  compiled : Compilation
  /-- The number of changes since the document was opened. -/
  version : Nat

namespace VirtualFile

/-- A document as it is opened. -/
def create (id : String) (source : List Char) (options : CompileOptions) : VirtualFile :=
  ⟨id, source, options, compile options source, 0⟩

/-- The document with another text. -/
def update (f : VirtualFile) (source : List Char) : VirtualFile :=
  ⟨f.id, source, f.options, compile f.options source, f.version + 1⟩

/-- The document under other options. -/
def reconfigure (f : VirtualFile) (options : CompileOptions) : VirtualFile :=
  ⟨f.id, f.source, options, compile options f.source, f.version + 1⟩

/-- All views, those embedded included. -/
def allDocuments (f : VirtualFile) : List VirtualDocument := f.compiled.allDocuments

/-- The first view in a language. -/
def find? (f : VirtualFile) (language : Language) : Option VirtualDocument :=
  f.allDocuments.find? (·.language == language)

end VirtualFile

end Mdx

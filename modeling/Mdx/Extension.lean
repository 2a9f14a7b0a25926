/-
The optional parts of the language: front matter in one of two dialects, and
math.
-/
import Mdx.Text.Blank

namespace Mdx

/-- The language of a front matter block. -/
inductive Dialect where
  | yaml
  | toml
  deriving DecidableEq, Repr

namespace Dialect

/-- The name of a dialect. -/
def name : Dialect → String
  | yaml => "yaml"
  | toml => "toml"

/-- The line above and below a block. -/
def fence : Dialect → String
  | yaml => "---"
  | toml => "+++"

/-- Whether a line is the fence; blanks may follow it. -/
def isFence (d : Dialect) (line : List Char) : Bool := trimRight line == d.fence.toList

end Dialect

/-- An optional part of the language. -/
inductive Extension where
  | frontmatter (dialect : Dialect)
  | math
  deriving DecidableEq, Repr

namespace Extension

/-- The name of an extension in options. -/
def name : Extension → String
  | frontmatter d => "frontmatter-" ++ d.name
  | math => "math"

/-- The extension of that name; blanks around it do not matter. -/
def ofName? (text : String) : Option Extension :=
  let trimmed := String.ofList (trim text.toList)
  [frontmatter .yaml, frontmatter .toml, math].find? (·.name == trimmed)

/-- The text of the error for a name that no extension has. -/
def unknownMessage (text : String) : String :=
  "unknown syntax extension \x60" ++ String.ofList (trim text.toList) ++
    "\x60 (expected frontmatter-yaml, frontmatter-toml or math)"

end Extension

/-- What a document may use, in the order it is tried. -/
structure ParseOptions where
  extensions : List Extension
  deriving DecidableEq, Repr

namespace ParseOptions

/-- Front matter in either dialect. -/
def standard : ParseOptions := ⟨[.frontmatter .yaml, .frontmatter .toml]⟩

/-- No extension at all. -/
def plain : ParseOptions := ⟨[]⟩

/-- Adds an extension behind the others, unless it is there. -/
def insert (o : ParseOptions) (e : Extension) : ParseOptions :=
  if e ∈ o.extensions then o else ⟨o.extensions ++ [e]⟩

/-- The front matter dialects in order. -/
def dialects (o : ParseOptions) : List Dialect :=
  o.extensions.filterMap fun
    | .frontmatter d => some d
    | .math => none

/-- Whether math is on. -/
def math (o : ParseOptions) : Bool := decide (Extension.math ∈ o.extensions)

end ParseOptions

end Mdx

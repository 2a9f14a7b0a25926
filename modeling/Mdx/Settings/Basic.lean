/-
The settings of the tools. They come from layers of text over the built-in
ones, and from single values that win over all text. Settings that cannot be
loaded and settings that are refused are different errors.
-/
import Mdx.Service.Script
import Mdx.Settings.Path
import Mdx.Toml.Document

namespace Mdx

/-- What can be set. -/
structure Settings where
  compiler : CompileOptions := {}
  diagnostics : DiagnosticsOptions := {}
  deriving DecidableEq, Repr

/-- Why there are no settings. -/
inductive SettingsError where
  /-- Some layer cannot be read, or a value has the wrong type. -/
  | load
  /-- The module of the markup runtime cannot be imported. -/
  | importSource (value : String)
  deriving DecidableEq, Repr

/-- The text of the error for a value that is refused. -/
def SettingsError.message : SettingsError → String
  | load => "failed to load configuration"
  | importSource value =>
    "invalid configuration value for \x60compiler.jsx_import_source\x60: \x60" ++ value ++
      "\x60 is not a module specifier"

namespace Settings

/-- The built-in layer. -/
def builtIn : List (String × Setting) :=
  [("compiler", .table [
      ("check_js", .bool false),
      ("jsx_import_source", .text "react"),
      ("extensions", .list [.text "frontmatter-yaml", .text "frontmatter-toml"])]),
    ("diagnostics", .table [
      ("unused_imports", .bool true),
      ("undefined_components", .bool true)])]

/-- The options of the compiler in a value. -/
def compilerOf? (s : Setting) : Option CompileOptions := do
  match ← s.members? ["check_js", "jsx_import_source", "extensions"] with
  | [checkJs, source, extensions] =>
    return ⟨← checkJs.toBool?, ← source.toText?, ← (← extensions.toTexts?).mapM Extension.ofName?⟩
  | _ => none

/-- The options of the diagnostics in a value. -/
def diagnosticsOf? (s : Setting) : Option DiagnosticsOptions := do
  match ← s.members? ["unused_imports", "undefined_components"] with
  | [unused, undefined] => return ⟨← unused.toBool?, ← undefined.toBool?⟩
  | _ => none

/-- The settings in some entries. -/
def ofEntries? (entries : List (String × Setting)) : Option Settings := do
  return ⟨← compilerOf? (← Keyed.find? "compiler" entries),
    ← diagnosticsOf? (← Keyed.find? "diagnostics" entries)⟩

/-- The text has the characters of `needle` in a row. -/
def hasInfix (needle : List Char) : List Char → Bool
  | [] => needle.isEmpty
  | c :: cs => needle.isPrefixOf (c :: cs) || hasInfix needle cs

/-- A text that names a module: blanks around it apart it is not empty, has no blank and does not
end a comment. -/
def isModuleName (text : String) : Bool :=
  let name := trim text.toList
  !name.isEmpty && !name.any isBlank && !hasInfix ['*', '/'] name

/-- The settings, unless they are refused. -/
def validate (s : Settings) : Except SettingsError Settings :=
  if isModuleName s.compiler.jsxImportSource then .ok s
  else .error (.importSource s.compiler.jsxImportSource)

end Settings

/-- Where settings come from. -/
structure Loader where
  /-- The texts over the built-in layer, the last one on top; `none` is one that is missing. -/
  layers : List (Option (List Char)) := []
  /-- The values over all texts, the last one on top. -/
  overrides : List (SettingPath × Setting) := []

namespace Loader

/-- Adds a layer of text. -/
def withText (l : Loader) (text : List Char) : Loader :=
  { l with layers := l.layers ++ [some text] }

/-- Adds the text of a file, which has to be there. -/
def withFile (l : Loader) (contents : Option (List Char)) : Loader :=
  { l with layers := l.layers ++ [contents] }

/-- Adds the text of a file, if it is there. -/
def withOptionalFile (l : Loader) : Option (List Char) → Loader
  | some text => l.withText text
  | none => l

/-- Sets one value. -/
def set (l : Loader) (key : String) (value : Setting) : Except SettingsError Loader :=
  match SettingPath.ofText? key with
  | some path => .ok { l with overrides := l.overrides ++ [(path, value)] }
  | none => .error .load

/-- Lays a text over some entries. A key that reads as a path is one. -/
def addLayer (entries : List (String × Setting)) (layer : Option (List Char)) :
    Option (List (String × Setting)) := do
  let added ← Toml.parse? (← layer)
  return added.foldl (fun entries (key, value) =>
    Setting.set ((SettingPath.ofText? key).getD (.single key)) value entries) entries

/-- The entries of all layers. -/
def entries? (l : Loader) : Option (List (String × Setting)) := do
  let texts ← l.layers.foldlM addLayer Settings.builtIn
  return l.overrides.foldl (fun entries (path, value) => Setting.set path value entries) texts

/-- The settings of all layers. -/
def build (l : Loader) : Except SettingsError Settings :=
  match l.entries?.bind Settings.ofEntries? with
  | some s => s.validate
  | none => .error .load

end Loader

end Mdx

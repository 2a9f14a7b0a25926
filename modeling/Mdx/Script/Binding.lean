/-
Names that a script binds at its top level, by imports and exports that start a
line. Statements are told by their shape alone: strings and comments around
them are not looked at.
-/
import Mdx.Text.Cursor
import Mdx.Text.Letter

namespace Mdx.Script

/-- How a name is bound. -/
inductive BindingKind where
  /-- By an import of a module. A name in braces that has no alias needs one to be renamed. -/
  | imported (source : String) (needsAlias : Bool)
  /-- By an exported declaration. -/
  | exported (keyword : String)
  deriving DecidableEq, Repr

/-- A bound name, its place and its statement. -/
structure Binding where
  name : String
  span : Span
  statement : Span
  kind : BindingKind
  deriving DecidableEq, Repr

/-- A character a bound name can start with. -/
def isNameStart (c : Char) : Bool := isLetter c || c == '_' || c == '$'

/-- A character a bound name can go on with. -/
def isNameChar (c : Char) : Bool := isLetter c || isNumber c || c == '_' || c == '$'

/-- Whether a text is one name. -/
def isValidName : List Char → Bool
  | [] => false
  | c :: cs => isNameStart c && cs.all isNameChar

/-- The name at the cursor and the place behind it. -/
def readName? (c : Cursor) : Option (String × Cursor) :=
  match c.rest with
  | [] => none
  | ch :: _ =>
    if isNameStart ch then some (String.ofList (c.rest.takeWhile isNameChar), c.skipWhile isNameChar)
    else none

/-- The names of a text at `offset`, each with its span; a name is as long as it can be. -/
def namesIn (offset : Nat) : List Char → List (String × Span)
  | [] => []
  | ch :: cs =>
    if isNameStart ch then
      let name := ch :: cs.takeWhile isNameChar
      let stop := offset + byteLength name
      (String.ofList name, ⟨offset, stop⟩) :: namesIn stop (cs.dropWhile isNameChar)
    else namesIn (offset + ch.utf8Size) cs
  termination_by cs => cs.length
  decreasing_by
    · have := (List.dropWhile_sublist isNameChar (l := cs)).length_le
      simp only [List.length_cons]
      omega
    · simp

/-- The place behind a word and the blanks after it; there must be a blank. -/
def skipWord? (word : String) (c : Cursor) : Option Cursor :=
  let after := c.drop word.length
  if c.startsWith word && after.rest.head?.any isBlank then some after.skipBlanks else none

/-- A quote of either kind. -/
def isQuote (c : Char) : Bool := c == '\x22' || c == '\x27'

/-- An import's module at the cursor, behind its clause: the word, the module between quotes, and
the place behind it. -/
def readModuleSource? (c : Cursor) : Option (String × Cursor) :=
  let word := c.skipBlanks
  let quoted := (word.drop 4).skipBlanks
  match quoted.rest with
  | [] => none
  | q :: rest =>
    let source := rest.takeWhile fun ch => !isQuote ch && ch != '\n'
    if word.startsWith "from" && isQuote q && (rest.drop source.length).head?.any isQuote then
      some (String.ofList source, quoted.drop (source.length + 2))
    else none

/-- The clause of an import at `offset`, up to the first place where its module follows, with the
module and the place behind it. A clause holds no semicolon and no quote. -/
def readClause? (offset : Nat) : List Char → Option (List Char × String × Cursor)
  | [] => none
  | ch :: cs =>
    match readModuleSource? ⟨offset, ch :: cs⟩ with
    | some (source, next) => some ([], source, next)
    | none =>
      if ch == ';' || isQuote ch then none
      else (readClause? (offset + ch.utf8Size) cs).map fun (clause, r) => (ch :: clause, r)

/-- The parts of a clause between its commas. -/
def splitCommas : List Char → List (List Char)
  | [] => [[]]
  | c :: cs =>
    if c == ',' then [] :: splitCommas cs
    else
      match splitCommas cs with
      | [] => [[c]]
      | part :: parts => (c :: part) :: parts

/-- The span from the first open brace of a clause to its first closing one. -/
def bracesOf? (offset : Nat) (clause : List Char) : Option Span :=
  if clause.contains '\x7b' then
    some ⟨offset + byteLength (clause.takeWhile (· != '\x7b')),
      offset + byteLength (clause.takeWhile (· != '\x7d'))⟩
  else none

/-- The bindings of the parts of a clause, the first part at `offset`. The last name of a part is
the one bound. -/
def partBindings (braces : Option Span) (statement : Span) (source : String) (offset : Nat) :
    List (List Char) → List Binding
  | [] => []
  | part :: parts =>
    let later := partBindings braces statement source (offset + byteLength part + 1) parts
    let names := namesIn offset part
    match names.getLast? with
    | none => later
    | some (name, span) =>
      let named := braces.any fun b => b.start < span.start && span.stop ≤ b.stop
      ⟨name, span, statement, .imported source (named && names.length == 1)⟩ :: later

/-- The bindings of an import at the cursor, and the place behind it. -/
def readImport? (c : Cursor) : Option (List Binding × Cursor) := do
  let start ← skipWord? "import" c
  let (clause, source, next) ← readClause? start.offset start.rest
  let statement := c.spanTo next.offset
  let braces := bracesOf? start.offset clause
  return (partBindings braces statement source start.offset (splitCommas clause), next)

/-- The keywords of declarations that can be exported. -/
def declarationKeywords : List String := ["const", "let", "var", "function*", "function", "class"]

/-- The binding of an export at the cursor, and the place behind its name. The statement is taken
to end with its first line. -/
def readExport? (c : Cursor) : Option (List Binding × Cursor) := do
  let start ← skipWord? "export" c
  let start := (skipWord? "default" start).getD start
  let start := (skipWord? "async" start).getD start
  let (keyword, place) ← declarationKeywords.findSome? fun keyword =>
    (skipWord? keyword start).map (keyword, ·)
  let (name, next) ← readName? place
  return ([⟨name, place.spanTo next.offset, c.spanTo c.lineEnd.offset, .exported keyword⟩], next)

/-- The bindings that a reader finds at the starts of lines, where a line inside a statement that
was read is passed over. -/
def readLines (read : Cursor → Option (List Binding × Cursor)) (offset : Nat) :
    List Cursor → List Binding
  | [] => []
  | line :: lines =>
    if line.offset < offset then readLines read offset lines
    else
      match read line with
      | some (found, next) => found ++ readLines read next.offset lines
      | none => readLines read offset lines

/-- The bindings of a script in the order of their places. -/
def bindings (cs : List Char) : List Binding :=
  let lines := (Cursor.ofText cs).lines
  (readLines readImport? 0 lines ++ readLines readExport? 0 lines).mergeSort
    fun a b => a.span.start ≤ b.span.start

namespace Binding

/-- How the name is bound, in words. -/
def detail (b : Binding) : String :=
  match b.kind with
  | .imported source _ => "import from '" ++ source ++ "'"
  | .exported keyword => "export " ++ keyword

/-- The name is bound by an import. -/
def isImport (b : Binding) : Bool :=
  match b.kind with
  | .imported .. => true
  | .exported _ => false

end Binding

end Mdx.Script

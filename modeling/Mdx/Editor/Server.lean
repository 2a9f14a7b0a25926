/-
The language server. It holds the settings and the documents that are open in
an editor. An event changes what it holds, and the reply to the event comes from
what it holds then.
-/
import Mdx.Editor.Address
import Mdx.Editor.Json.Reader
import Mdx.Editor.Message
import Mdx.Editor.Options
import Mdx.Service.Standard

namespace Mdx.Editor

/-- What a server holds. -/
structure Server where
  /-- Where settings come from before those of the editor. -/
  loader : Loader
  settings : Settings
  /-- The services, with the diagnostics that the settings turn on. -/
  registry : Registry
  /-- The open documents by their addresses. -/
  files : Keyed VirtualFile := []

/-- Something that an editor tells or asks the server. -/
inductive Event where
  /-- The editor starts the server, perhaps with options. A message with null for options has none, as
  `JsonValue.member?` reads it. -/
  | start (options : Option JsonValue)
  | started
  | shutdown
  | opened (uri : String) (text : List Char) (version : Int)
  /-- The text of a document was changed to each of the texts in turn. -/
  | changed (uri : String) (texts : List (List Char)) (version : Int)
  | closed (uri : String)
  | hover (uri : String) (position : Position)
  | completion (uri : String) (position : Position)
  | definition (uri : String) (position : Position)
  | rename (uri : String) (position : Position) (newName : String)
  | symbols (uri : String)
  | folds (uri : String)

/-- Diagnostics that are sent to the editor. -/
structure Publication where
  uri : String
  diagnostics : List JsonValue
  /-- The version of the text that they are about. -/
  version : Option Int

/-- Why a question has no answer. -/
inductive RequestError where
  | invalidParameters (message : String)
  deriving DecidableEq, Repr

namespace RequestError

/-- The number of an error in the editor protocol. -/
def code : RequestError → Int
  | invalidParameters _ => -32602

/-- The text of an error. -/
def message : RequestError → String
  | invalidParameters m => m

end RequestError

/-- What the server sends for an event. -/
structure Reply where
  result : Except RequestError JsonValue := .ok .null
  published : List Publication := []

namespace Server

/-- A server without open documents. The settings need not be those of the loader. -/
def ofSettings (l : Loader) (settings : Settings) : Server :=
  ⟨l, settings, .standard settings.diagnostics, []⟩

/-- A server without open documents under the settings of a loader. -/
def ofLoader (l : Loader) : Except SettingsError Server := do return .ofSettings l (← l.build)

/-- The open document at an address. -/
def file? (s : Server) (uri : String) : Option VirtualFile := Keyed.find? uri s.files

/-- Goes over to other settings; all open documents follow. -/
def configure (s : Server) (settings : Settings) : Server :=
  { s with
    settings
    registry := .standard settings.diagnostics
    files := Keyed.mapValues (·.reconfigure settings.compiler) s.files }

/-- Opens a document, also one that is open. -/
def openFile (s : Server) (uri : String) (text : List Char) : Server :=
  { s with files := Keyed.put uri (.create uri text s.settings.compiler) s.files }

/-- Changes the text of a document; one that is not open is opened. -/
def changeFile (s : Server) (uri : String) (text : List Char) : Server :=
  match s.file? uri with
  | some f => { s with files := Keyed.put uri (f.update text) s.files }
  | none => s.openFile uri text

/-- What the server holds after an event. Options start from the loader each time, also those that set
nothing, and options that give no settings are ignored. Of several changes the last one counts. -/
def step (s : Server) : Event → Server
  | .start (some options) =>
    match settingsFrom s.loader options with
    | .ok settings => s.configure settings
    | .error _ => s
  | .opened uri text _ => s.openFile uri text
  | .changed uri texts _ =>
    match texts.getLast? with
    | some text => s.changeFile uri text
    | none => s
  | .closed uri => { s with files := Keyed.erase uri s.files }
  | _ => s

/-- The diagnostics of an open document. -/
def publish (s : Server) (uri : String) (version : Int) : List Publication :=
  match s.file? uri with
  | some f =>
    [⟨uri, (Feature.diagnostics f s.registry).map (diagnosticMessage uri f.source), some version⟩]
  | none => []

/-- The answer about an open document; about another one it is null. -/
def ask (s : Server) (uri : String) (answer : VirtualFile → JsonValue) : Reply :=
  { result := .ok ((s.file? uri).elim .null answer) }

/-- The changes that rename what is at a place. -/
def rename (s : Server) (f : VirtualFile) (uri : String) (offset : Nat) (newName : String) :
    Except RequestError JsonValue :=
  match Feature.rename f s.registry offset newName with
  | .error e => .error (.invalidParameters e.message)
  | .ok [] => .ok .null
  | .ok edits =>
    let changes := edits.map fun e => editMessage f.source e.range e.newText
    .ok (.object [("changes", .object [(uri, .array changes)])])

/-- The reply to an event that the server has carried out. -/
def reply (s : Server) : Event → Reply
  | .start _ => { result := .ok capabilities }
  | .started | .shutdown => {}
  | .opened uri _ version => { published := s.publish uri version }
  | .changed _ [] _ => {}
  | .changed uri _ version => { published := s.publish uri version }
  | .closed uri => { published := [⟨uri, [], none⟩] }
  | .hover uri p => s.ask uri fun f =>
    (Feature.hover f s.registry (offsetOfUtf16 f.source p)).elim .null (hoverMessage f.source)
  | .completion uri p => s.ask uri fun f =>
    listOrNull ((Feature.completions f s.registry (offsetOfUtf16 f.source p)).map
      (completionMessage f.source))
  | .definition uri p => s.ask uri fun f =>
    listOrNull ((Feature.definition f s.registry (offsetOfUtf16 f.source p)).map
      (locationMessage uri f.source))
  | .rename uri p newName =>
    match s.file? uri with
    | some f => { result := s.rename f uri (offsetOfUtf16 f.source p) newName }
    | none => {}
  | .symbols uri => s.ask uri fun f => .array (symbolMessages f.source (Feature.symbols f s.registry))
  | .folds uri => s.ask uri fun f => .array ((Feature.folds f s.registry).map foldMessage)

/-- Carries out an event and replies to it. -/
def handle (s : Server) (e : Event) : Server × Reply :=
  let next := s.step e
  (next, next.reply e)

/-- Carries out events one after the other. -/
def run (s : Server) (events : List Event) : Server := events.foldl step s

end Server

end Mdx.Editor

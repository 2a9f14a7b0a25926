/-
What a server holds after any events, told by the events alone: which documents
are open, with which text and version, which settings count, and what the services
report under them.

An event is seen from one document (`Event.effect`): it opens, changes or closes
the document, brings settings, or does nothing to it. A change compiles under the
options stored with the document, not under the settings of the server. The two
stay the same only because settings are brought to all documents at once, so what
is stored at an address (`Tracks`) is followed together with the settings.
-/
import Mathlib.Data.List.Induction
import Mdx.Editor.Server
import Mdx.Proofs.Service.Toggles

namespace Mdx.Editor

/-! ## Histories -/

/-- What an event does to one document. -/
inductive Effect where
  | opens (text : List Char)
  | changes (text : List Char)
  | closes
  | configures (settings : Settings)
  | nothing

namespace Effect

/-- The text that the document is given. -/
def text? : Effect → Option (List Char)
  | opens text | changes text => some text
  | _ => none

/-- The settings that are brought to the document. -/
def settings? : Effect → Option Settings
  | configures settings => some settings
  | _ => none

def isOpen : Effect → Bool
  | opens _ => true
  | _ => false

def isChange : Effect → Bool
  | changes _ => true
  | _ => false

def isClose : Effect → Bool
  | closes => true
  | _ => false

def isConfigure : Effect → Bool
  | configures _ => true
  | _ => false

end Effect

namespace Event

/-- The settings that an event brings. Options bring some if they are there and, set over those of
the loader, give valid settings. -/
def settings? (l : Loader) : Event → Option Settings
  | start (some options) => (settingsFrom l options).toOption
  | _ => none

/-- What an event does to the document at `uri`. Of several changes the last one counts. -/
def effect (l : Loader) (uri : String) : Event → Effect
  | opened u text _ => if u = uri then .opens text else .nothing
  | changed u texts _ => if u = uri then texts.getLast?.elim .nothing .changes else .nothing
  | closed u => if u = uri then .closes else .nothing
  | e => (e.settings? l).elim .nothing .configures

/-- An event that has nothing to change: options that are not there or not valid, changes without a
text, and questions. -/
def idle (l : Loader) : Event → Bool
  | start options => ((start options).settings? l).isNone
  | changed _ texts _ => texts.isEmpty
  | opened _ _ _ | closed _ => false
  | _ => true

end Event

/-- All that happened to the document at `uri`. -/
def effects (l : Loader) (uri : String) (events : List Event) : List Effect :=
  events.map (·.effect l uri)

/-- The last text that a document was given is `text`, and it was not closed after that. -/
def Stands (text : List Char) (es : List Effect) : Prop :=
  ∃ before x after, es = before ++ x :: after ∧ x.text? = some text ∧
    ∀ y ∈ after, y.text? = none ∧ y.isClose = false

/-- A document is there from now on: it is opened, or changed when there was none. -/
def Creates (before : List Effect) (x : Effect) : Prop :=
  x.isOpen = true ∨ x.isChange = true ∧ ¬ ∃ text, Stands text before

/-- What happened to an open document since it was opened or a change created it. -/
def Since (es after : List Effect) : Prop :=
  ∃ before x, es = before ++ x :: after ∧ Creates before x ∧
    ∀ y ∈ after, y.isOpen = false ∧ y.isClose = false

section History

variable {es after : List Effect} {x : Effect} {text : List Char}

/-- A list with one more element is cut at that element or before it. -/
theorem append_singleton_eq_iff {α : Type} {xs before after : List α} {x y : α} :
    xs ++ [x] = before ++ y :: after ↔ (xs = before ∧ x = y ∧ after = []) ∨
      ∃ front, after = front ++ [x] ∧ xs = before ++ y :: front := by
  constructor
  · intro h
    rcases List.eq_nil_or_concat after with rfl | ⟨front, z, rfl⟩
    · obtain ⟨rfl, hx⟩ := List.append_inj' h rfl
      exact .inl ⟨rfl, List.singleton_inj.mp hx, rfl⟩
    · rw [List.concat_eq_append, ← List.cons_append, ← List.append_assoc] at h
      obtain ⟨rfl, hx⟩ := List.append_inj' h rfl
      exact .inr ⟨front, by rw [List.concat_eq_append, List.singleton_inj.mp hx], rfl⟩
  · rintro (⟨rfl, rfl, rfl⟩ | ⟨front, rfl, rfl⟩)
    · rfl
    · simp

theorem not_stands_nil : ¬ Stands text [] := by
  rintro ⟨before, x, after, h, -⟩
  simp at h

theorem stands_concat : Stands text (es ++ [x]) ↔
    x.text? = some text ∨ x.text? = none ∧ x.isClose = false ∧ Stands text es := by
  simp only [Stands, append_singleton_eq_iff]
  constructor
  · rintro ⟨before, y, after, ⟨rfl, rfl, rfl⟩ | ⟨front, rfl, rfl⟩, hy, hafter⟩
    · exact .inl hy
    · rw [List.forall_mem_append, List.forall_mem_singleton] at hafter
      exact .inr ⟨hafter.2.1, hafter.2.2, before, y, front, rfl, hy, hafter.1⟩
  · rintro (hx | ⟨hnone, hclose, before, y, front, rfl, hy, hfront⟩)
    · exact ⟨es, x, [], .inl ⟨rfl, rfl, rfl⟩, hx, by simp⟩
    · refine ⟨before, y, _, .inr ⟨front, rfl, rfl⟩, hy, ?_⟩
      rw [List.forall_mem_append, List.forall_mem_singleton]
      exact ⟨hfront, hnone, hclose⟩

theorem stands_concat_of_none (htext : x.text? = none) (hclose : x.isClose = false) :
    Stands text (es ++ [x]) ↔ Stands text es := by
  simp [stands_concat, htext, hclose]

theorem since_concat : Since (es ++ [x]) after ↔ (after = [] ∧ Creates es x) ∨
    ∃ front, after = front ++ [x] ∧ Since es front ∧ x.isOpen = false ∧ x.isClose = false := by
  simp only [Since, append_singleton_eq_iff]
  constructor
  · rintro ⟨before, y, ⟨rfl, rfl, rfl⟩ | ⟨front, rfl, rfl⟩, hy, hafter⟩
    · exact .inl ⟨rfl, hy⟩
    · rw [List.forall_mem_append, List.forall_mem_singleton] at hafter
      exact .inr ⟨front, rfl, ⟨before, y, rfl, hy, hafter.1⟩, hafter.2⟩
  · rintro (⟨rfl, hx⟩ | ⟨front, rfl, ⟨before, y, rfl, hy, hfront⟩, hx⟩)
    · exact ⟨es, x, .inl ⟨rfl, rfl, rfl⟩, hx, by simp⟩
    · refine ⟨before, y, .inr ⟨front, rfl, rfl⟩, hy, ?_⟩
      rw [List.forall_mem_append, List.forall_mem_singleton]
      exact ⟨hfront, hx⟩

/-- A document that is there has a text. -/
theorem Since.stands (h : Since es after) : ∃ text, Stands text es := by
  induction es using List.reverseRecOn generalizing after with
  | nil =>
    obtain ⟨before, x, h, -⟩ := h
    simp at h
  | append_singleton es x ih =>
    rcases since_concat.mp h with ⟨-, hx⟩ | ⟨front, -, hfront, -, hclose⟩
    · cases x with
      | opens text | changes text => exact ⟨text, stands_concat.mpr (.inl rfl)⟩
      | closes | configures | nothing => simp [Creates, Effect.isOpen, Effect.isChange] at hx
    · obtain ⟨text, htext⟩ := ih hfront
      cases hx : x.text? with
      | some later => exact ⟨later, stands_concat.mpr (.inl hx)⟩
      | none => exact ⟨text, stands_concat.mpr (.inr ⟨hx, hclose, htext⟩)⟩

end History

/-! ## One document -/

/-- A document agrees with what happened to it under the settings of the server. -/
structure Agrees (uri : String) (es : List Effect) (settings : Settings) (f : VirtualFile) : Prop where
  id_eq : f.id = uri
  source_stands : Stands f.source es
  options_eq : f.options = settings.compiler
  compiled_eq : f.compiled = compile f.options f.source
  since : ∃ after, Since es after
  version_eq : ∀ after, Since es after →
    f.version = after.countP Effect.isChange + after.countP Effect.isConfigure

/-- What is stored at `uri` agrees with what happened there. -/
structure Tracks (uri : String) (es : List Effect) (settings : Settings)
    (stored : Option VirtualFile) : Prop where
  stored_iff : stored.isSome = true ↔ ∃ text, Stands text es
  agrees : ∀ f, stored = some f → Agrees uri es settings f

/-- What is stored at `uri` after an effect, where `settings` were those before it. -/
def Effect.on (uri : String) (settings : Settings) : Effect → Option VirtualFile → Option VirtualFile
  | opens text, _ => some (.create uri text settings.compiler)
  | changes text, none => some (.create uri text settings.compiler)
  | changes text, some f => some (f.update text)
  | closes, _ => none
  | configures settings, stored => stored.map (·.reconfigure settings.compiler)
  | nothing, stored => stored

section Document

variable {uri : String} {es : List Effect} {settings : Settings} {stored : Option VirtualFile}
  {f : VirtualFile} {x : Effect} {text : List Char}

theorem Tracks.of_not_stands (h : ¬ ∃ text, Stands text es) : Tracks uri es settings none where
  stored_iff := by simpa using h
  agrees := by simp

theorem Tracks.of_agrees (h : Agrees uri es settings f) : Tracks uri es settings (some f) where
  stored_iff := by simpa using ⟨f.source, h.source_stands⟩
  agrees := by
    rintro _ ⟨⟩
    exact h

theorem Tracks.not_stands (h : Tracks uri es settings none) : ¬ ∃ text, Stands text es := by
  simpa using h.stored_iff

/-- A document that an effect creates has no changes behind it. -/
theorem agrees_create (htext : x.text? = some text) (hx : Creates es x) :
    Agrees uri (es ++ [x]) settings (.create uri text settings.compiler) where
  id_eq := rfl
  source_stands := stands_concat.mpr (.inl htext)
  options_eq := rfl
  compiled_eq := rfl
  since := ⟨[], since_concat.mpr (.inl ⟨rfl, hx⟩)⟩
  version_eq := by
    intro after hafter
    rcases since_concat.mp hafter with ⟨rfl, -⟩ | ⟨front, -, hfront, hopen, -⟩
    · rfl
    · rcases hx with h | ⟨-, h⟩
      · simp [h] at hopen
      · exact absurd hfront.stands h

/-- A document that stays open counts one more effect. -/
theorem Agrees.goesOn (h : Agrees uri es settings f) {later : Settings} {g : VirtualFile}
    (hopen : x.isOpen = false) (hclose : x.isClose = false) (hid : g.id = f.id)
    (hsource : Stands g.source (es ++ [x])) (hoptions : g.options = later.compiler)
    (hcompiled : g.compiled = compile g.options g.source)
    (hversion : g.version = f.version + ([x].countP Effect.isChange + [x].countP Effect.isConfigure)) :
    Agrees uri (es ++ [x]) later g where
  id_eq := hid.trans h.id_eq
  source_stands := hsource
  options_eq := hoptions
  compiled_eq := hcompiled
  since := by
    obtain ⟨after, hafter⟩ := h.since
    exact ⟨after ++ [x], since_concat.mpr (.inr ⟨after, rfl, hafter, hopen, hclose⟩)⟩
  version_eq := by
    intro after hafter
    rcases since_concat.mp hafter with ⟨-, hx | ⟨-, hx⟩⟩ | ⟨front, rfl, hfront, -, -⟩
    · simp [hx] at hopen
    · exact absurd ⟨f.source, h.source_stands⟩ hx
    · rw [hversion, h.version_eq front hfront, List.countP_append, List.countP_append]
      omega

/-- What is stored at an address goes on to agree with what happens there. -/
theorem Tracks.step (h : Tracks uri es settings stored) (x : Effect) :
    Tracks uri (es ++ [x]) (x.settings?.getD settings) (x.on uri settings stored) := by
  cases x with
  | opens text => exact .of_agrees (agrees_create rfl (.inl rfl))
  | changes text =>
    cases stored with
    | none => exact .of_agrees (agrees_create rfl (.inr ⟨rfl, h.not_stands⟩))
    | some f =>
      -- The text is compiled under the options of the document, which are those of the server.
      have hf := h.agrees f rfl
      exact .of_agrees (hf.goesOn rfl rfl rfl (stands_concat.mpr (.inl rfl)) hf.options_eq rfl rfl)
  | closes =>
    refine .of_not_stands ?_
    rintro ⟨text, htext⟩
    rcases stands_concat.mp htext with htext | ⟨-, hclose, -⟩
    · cases htext
    · cases hclose
  | configures later =>
    have hstands : ∀ text, Stands text (es ++ [.configures later]) ↔ Stands text es :=
      fun _ => stands_concat_of_none rfl rfl
    cases stored with
    | none => exact .of_not_stands (by simpa only [hstands] using h.not_stands)
    | some f =>
      have hf := h.agrees f rfl
      exact .of_agrees (hf.goesOn rfl rfl rfl ((hstands _).mpr hf.source_stands) rfl rfl rfl)
  | nothing =>
    have hstands : ∀ text, Stands text (es ++ [.nothing]) ↔ Stands text es :=
      fun _ => stands_concat_of_none rfl rfl
    cases stored with
    | none => exact .of_not_stands (by simpa only [hstands] using h.not_stands)
    | some f =>
      have hf := h.agrees f rfl
      exact .of_agrees (hf.goesOn rfl rfl rfl ((hstands _).mpr hf.source_stands) hf.options_eq
        hf.compiled_eq rfl)

end Document

/-! ## The server -/

theorem Event.settings?_effect (l : Loader) (uri : String) (e : Event) :
    (e.effect l uri).settings? = e.settings? l := by
  cases e with
  | start options =>
    simp only [effect]
    cases (start options).settings? l <;> rfl
  | opened u => by_cases hu : u = uri <;> simp [effect, hu, Effect.settings?, settings?]
  | changed u texts =>
    by_cases hu : u = uri
    · cases htexts : texts.getLast? <;> simp [effect, hu, htexts, Effect.settings?, settings?]
    · simp [effect, hu, Effect.settings?, settings?]
  | closed u => by_cases hu : u = uri <;> simp [effect, hu, Effect.settings?, settings?]
  | started | shutdown | hover | completion | definition | rename | symbols | folds => rfl

namespace Server

variable {l : Loader} {initial : Settings} {events : List Event} {s : Server}

theorem step_start (s : Server) (options : Option JsonValue) :
    s.step (.start options) = ((Event.start options).settings? s.loader).elim s s.configure := by
  cases options with
  | none => rfl
  | some value =>
    simp only [step, Event.settings?]
    split <;> simp [*, Except.toOption]

theorem step_changed (s : Server) (uri : String) (texts : List (List Char)) (version : Int) :
    s.step (.changed uri texts version) = texts.getLast?.elim s (s.changeFile uri) := by
  simp only [step]
  split <;> simp [*]

theorem file?_configure (s : Server) (settings : Settings) (uri : String) :
    (s.configure settings).file? uri = (s.file? uri).map (·.reconfigure settings.compiler) := by
  rw [file?, configure, Keyed.find?_mapValues, file?]

theorem file?_openFile (s : Server) (u uri : String) (text : List Char) :
    (s.openFile u text).file? uri =
      if u = uri then some (.create uri text s.settings.compiler) else s.file? uri := by
  split
  · next hu =>
    subst hu
    exact Keyed.find?_put_self _ _ _
  · next hu => exact Keyed.find?_put_other (Ne.symm hu) _ _

theorem file?_changeFile (s : Server) (u uri : String) (text : List Char) :
    (s.changeFile u text).file? uri =
      if u = uri then (Effect.changes text).on uri s.settings (s.file? uri) else s.file? uri := by
  unfold changeFile
  split
  · next f hf =>
    split
    · next hu =>
      subst hu
      rw [hf]
      exact Keyed.find?_put_self _ _ _
    · next hu => exact Keyed.find?_put_other (Ne.symm hu) _ _
  · next hf =>
    rw [file?_openFile]
    split
    · next hu =>
      subst hu
      rw [hf]
      rfl
    · rfl

/-- What an event leaves at an address is told by its effect there. -/
theorem file?_step (s : Server) (e : Event) (uri : String) :
    (s.step e).file? uri = (e.effect s.loader uri).on uri s.settings (s.file? uri) := by
  cases e with
  | start options =>
    rw [step_start]
    simp only [Event.effect]
    cases (Event.start options).settings? s.loader with
    | none => rfl
    | some settings => exact file?_configure s settings uri
  | opened u text =>
    rw [step, file?_openFile, Event.effect]
    split <;> rfl
  | changed u texts =>
    rw [step_changed, Event.effect]
    cases texts.getLast? with
    | none => simp [Effect.on]
    | some text =>
      simp only [Option.elim_some, file?_changeFile]
      split <;> rfl
  | closed u =>
    rw [Event.effect]
    split
    · next hu =>
      subst hu
      exact Keyed.find?_erase_self _ _
    · next hu => exact Keyed.find?_erase_other (Ne.symm hu) _
  | started | shutdown | hover | completion | definition | rename | symbols | folds => rfl

/-- Apart from the documents, an event changes what it brings settings for. -/
theorem settings_step (s : Server) (e : Event) : (s.step e).loader = s.loader ∧
    (s.step e).settings = (e.settings? s.loader).getD s.settings ∧
    (s.step e).registry = (e.settings? s.loader).elim s.registry fun t => .standard t.diagnostics := by
  cases e with
  | start options =>
    rw [step_start]
    cases (Event.start options).settings? s.loader <;> exact ⟨rfl, rfl, rfl⟩
  | changed u texts =>
    rw [step_changed]
    cases texts.getLast? with
    | none => exact ⟨rfl, rfl, rfl⟩
    | some text =>
      simp only [Option.elim_some, changeFile]
      split <;> exact ⟨rfl, rfl, rfl⟩
  | opened | closed | started | shutdown | hover | completion | definition | rename | symbols | folds =>
    exact ⟨rfl, rfl, rfl⟩

theorem step_of_idle {e : Event} (h : e.idle s.loader = true) : s.step e = s := by
  cases e with
  | start options =>
    rw [Event.idle, Option.isNone_iff_eq_none] at h
    rw [step_start, h]
    rfl
  | changed u texts =>
    rw [Event.idle, List.isEmpty_iff] at h
    rw [step_changed, h]
    rfl
  | opened | closed => cases h
  | started | shutdown | hover | completion | definition | rename | symbols | folds => rfl

/-- What a server holds agrees with the events it was told of, where the settings were `initial`
before them. -/
structure Follows (l : Loader) (initial : Settings) (events : List Event) (s : Server) : Prop where
  loader_eq : s.loader = l
  settings_eq : s.settings = (events.filterMap (·.settings? l)).getLast?.getD initial
  registry_eq : s.registry = .standard s.settings.diagnostics
  /-- The services report what the toggles of these settings say. -/
  serves : Serves s.settings.diagnostics s.registry
  tracks : ∀ uri, Tracks uri (effects l uri events) s.settings (s.file? uri)

theorem follows_ofSettings (l : Loader) (initial : Settings) :
    Follows l initial [] (ofSettings l initial) where
  loader_eq := rfl
  settings_eq := rfl
  registry_eq := rfl
  serves := serves_standard _
  tracks _ := .of_not_stands fun ⟨_, h⟩ => not_stands_nil h

theorem Follows.step (h : Follows l initial events s) (e : Event) :
    Follows l initial (events ++ [e]) (s.step e) := by
  obtain ⟨hloader, hsettings, hregistry⟩ := settings_step s e
  rw [h.loader_eq] at hloader hsettings hregistry
  have hstandard : (s.step e).registry = .standard (s.step e).settings.diagnostics := by
    rw [hregistry, hsettings]
    cases e.settings? l with
    | none => exact h.registry_eq
    | some settings => rfl
  refine ⟨hloader, ?_, hstandard, hstandard ▸ serves_standard _, fun uri => ?_⟩
  · rw [hsettings, h.settings_eq, List.filterMap_append]
    cases he : e.settings? l <;> simp [he]
  · have hstep := (h.tracks uri).step (e.effect l uri)
    rwa [Event.settings?_effect, ← hsettings, ← h.loader_eq, ← file?_step, h.loader_eq,
      effects, ← List.map_singleton, ← List.map_append] at hstep

theorem follows_run (l : Loader) (initial : Settings) (events : List Event) :
    Follows l initial events ((ofSettings l initial).run events) := by
  induction events using List.reverseRecOn with
  | nil => exact follows_ofSettings l initial
  | append_singleton events e ih =>
    rw [run, List.foldl_append]
    exact ih.step e

/-- What is open is stored under the settings of the server. -/
theorem Follows.exists_file {uri : String} {text : List Char} {after : List Effect}
    (h : Follows l initial events s) (hstands : Stands text (effects l uri events))
    (hafter : Since (effects l uri events) after) : ∃ f, s.file? uri = some f ∧
      f.options = s.settings.compiler ∧
      f.version = after.countP Effect.isChange + after.countP Effect.isConfigure := by
  obtain ⟨f, hf⟩ := Option.isSome_iff_exists.mp ((h.tracks uri).stored_iff.mpr ⟨text, hstands⟩)
  have hagrees := (h.tracks uri).agrees f hf
  exact ⟨f, hf, hagrees.options_eq, hagrees.version_eq _ hafter⟩

/-- **What a server holds follows from its history.** After any events, the settings and the services
are those of the last event that brought settings, of which the toggles decide what is reported, and
what is stored at an address is what happened to the document there. An event that has nothing to change leaves all as it is. -/
theorem run_follows_history (l : Loader) (initial : Settings) (events : List Event) :
    Follows l initial events ((ofSettings l initial).run events) ∧
      ∀ e, e.idle l = true →
        (((ofSettings l initial).run events).handle e).1 = (ofSettings l initial).run events := by
  have h := follows_run l initial events
  refine ⟨h, fun e he => ?_⟩
  rw [← h.loader_eq] at he
  exact step_of_idle he

/-- A document is opened, compiled under other settings, which turn a toggle off, and changed twice at once.
Options that are refused leave all of that as it is, and options that set nothing bring back the settings of
the loader. -/
theorem run_follows_history_refused :
    let options : JsonValue := .object [("compiler", .object [("check_js", .bool true)]),
      ("diagnostics", .object [("unused_imports", .bool false)])]
    let refused : JsonValue := .object [("compiler", .object [("jsx_import_source", .text "")])]
    let events := [.opened "a" ['x'] 1, .start (some options), .changed "a" [['y'], ['z']] 2]
    let s := (ofSettings {} {}).run events
    let reset := (ofSettings {} {}).run (events ++ [.start (some .null)])
    (∃ f, s.file? "a" = some f ∧ f.options = { checkJs := true } ∧ f.version = 2) ∧
      (∃ service found, s.registry.service? .script = some service ∧ service.diagnostics unusedView = .ok found ∧
        (∀ x ∈ found, x.code ≠ some "unused-import") ∧ ∃ x ∈ found, x.code = some "undefined-component") ∧
      ((Event.start (some refused)).idle {} = true ∧ (s.handle (.start (some refused))).1 = s) ∧
      (reset.settings = {} ∧ ∃ f, reset.file? "a" = some f ∧ f.options = {} ∧ f.version = 3) ∧
      ∃ service found, reset.registry.service? .script = some service ∧
        service.diagnostics unusedView = .ok found ∧ ∃ x ∈ found, x.code = some "unused-import" := by
  intro options refused events s reset
  obtain ⟨h, hidle⟩ := run_follows_history {} {} events
  obtain ⟨hreset, -⟩ := run_follows_history {} {} (events ++ [.start (some .null)])
  let brought : Settings := ⟨{ checkJs := true }, { unusedImports := false }⟩
  have hrefused : (Event.start (some refused)).idle {} = true := by decide +kernel
  have hoptions : (Event.start (some options)).settings? {} = some brought := by decide +kernel
  have hnull : (Event.start (some .null)).settings? {} = some {} := by decide +kernel
  have hsettings : s.settings = brought := by
    rw [h.settings_eq]
    simp only [events, List.filterMap_cons, hoptions]
    rfl
  have hsettings' : reset.settings = {} := by
    rw [hreset.settings_eq]
    simp only [events, List.cons_append, List.nil_append, List.filterMap_cons, hoptions, hnull]
    rfl
  have heffects : effects {} "a" events = [.opens ['x'], .configures brought, .changes ['z']] := by
    simp [events, effects, Event.effect, hoptions]
  have heffects' : effects {} "a" (events ++ [.start (some .null)]) =
      [.opens ['x'], .configures brought, .changes ['z'], .configures {}] := by
    simp [events, effects, Event.effect, hoptions, hnull]
  have hstands : Stands ['z'] (effects {} "a" events) :=
    ⟨[.opens ['x'], .configures _], _, [], heffects, rfl, by simp⟩
  have hsince : Since (effects {} "a" events) [.configures brought, .changes ['z']] :=
    ⟨[], _, heffects, .inl rfl, by simp [Effect.isOpen, Effect.isClose]⟩
  have hstands' : Stands ['z'] (effects {} "a" (events ++ [.start (some .null)])) :=
    ⟨[.opens ['x'], .configures _], _, [.configures {}], heffects', rfl, by simp [Effect.text?, Effect.isClose]⟩
  have hsince' : Since (effects {} "a" (events ++ [.start (some .null)]))
      [.configures brought, .changes ['z'], .configures {}] :=
    ⟨[], _, heffects', .inl rfl, by simp [Effect.isOpen, Effect.isClose]⟩
  have hfile := h.exists_file hstands hsince
  have hfile' := hreset.exists_file hstands' hsince'
  rw [hsettings] at hfile
  rw [hsettings'] at hfile'
  have hserves := h.serves
  have hserves' := hreset.serves
  rw [hsettings] at hserves
  rw [hsettings'] at hserves'
  obtain ⟨service, found, hservice, hfound, himports, hcomponents⟩ := hserves.shows_toggles
  obtain ⟨service', found', hservice', hfound', himports', -⟩ := hserves'.shows_toggles
  refine ⟨hfile, ⟨service, found, hservice, hfound, fun x hx hcode => ?_, hcomponents.mpr rfl⟩,
    ⟨hrefused, hidle _ hrefused⟩, ⟨hsettings', hfile'⟩, service', found', hservice', hfound', himports'.mpr rfl⟩
  cases himports.mp ⟨x, hx, hcode⟩

end Server

end Mdx.Editor

import DesktopShell.Proofs.Drive.Labelled
import DesktopShell.Proofs.Shell.Effect

namespace DesktopShell

namespace App

variable {app other : App} {name : String}

theorem mem_all (app : App) : app ∈ all := by
  cases app <;> decide

-- The words that an application is started by.
def names (app : App) : List String :=
  app.key :: app.aliases

theorem answersTo_iff :
    app.answersTo name = true ↔ ∃ n ∈ app.names, Text.sameIgnoringAsciiCase n name = true := by
  unfold answersTo names
  rw [Bool.or_eq_true, List.any_eq_true, List.exists_mem_cons_iff]

-- No name belongs to two applications.
theorem apart : ∀ a ∈ all, ∀ b ∈ all, ∀ n ∈ a.names, ∀ m ∈ b.names,
    Text.sameIgnoringAsciiCase n m = true → a = b := by
  decide +kernel

theorem eq_of_answersTo (h : app.answersTo name = true) (h' : other.answersTo name = true) :
    app = other := by
  obtain ⟨n, hn, hsame⟩ := answersTo_iff.mp h
  obtain ⟨m, hm, hsame'⟩ := answersTo_iff.mp h'
  apply apart app app.mem_all other other.mem_all n hn m hm
  simp only [Text.sameIgnoringAsciiCase, beq_iff_eq] at *
  rw [hsame, hsame']

theorem find?_eq_some_iff : find? name = some app ↔ app.answersTo name = true := by
  constructor
  · exact fun h => List.find?_some (p := fun app : App => app.answersTo name) h
  · intro h
    cases hfind : find? name with
    | none => exact absurd h (List.find?_eq_none.mp hfind app app.mem_all)
    | some other =>
        have hother := List.find?_some (p := fun app : App => app.answersTo name) hfind
        rw [eq_of_answersTo hother h]

theorem find?_eq_none_iff : find? name = none ↔ ∀ app : App, app.answersTo name = false := by
  constructor
  · exact fun h app => Bool.eq_false_iff.mpr (List.find?_eq_none.mp h app app.mem_all)
  · intro h
    refine List.find?_eq_none.mpr fun app _ => ?_
    simp [h app]

theorem app_defaultContent (app : App) (folder : String) : (app.defaultContent folder).app = app := by
  cases app <;> rfl

end App

-- The scene after a window has been opened, which gets the number behind `last`.
def Scene.withWindow (s : Scene) (last : Nat) (window : Window) : Scene :=
  { s with windows := some (last + 1), log := s.log ++ [.opened (last + 1) window] }

namespace Launch

-- The application that a program starts. What its content names comes before what its name does.
inductive Starts (x : Item) : App → Prop
  | byContent {text : String} {app : App} (content : x.entry.content = some text)
      (named : app.answersTo (Text.trim text) = true) : Starts x app
  | byName {stem : String} {app : App}
      (unnamed : ∀ text, x.entry.content = some text →
        ∀ app : App, app.answersTo (Text.trim text) = false)
      (cut : x.stem? = some stem) (named : app.answersTo stem = true) : Starts x app

-- The content or the name of an item names an application.
def NamesApp (x : Item) : Prop :=
  (∃ text, x.entry.content = some text ∧ ∃ app : App, app.answersTo (Text.trim text) = true) ∨
    ∃ stem, x.stem? = some stem ∧ ∃ app : App, app.answersTo stem = true

-- A file that no application can open.
structure Unsupported (x : Item) : Prop where
  file : x.isFolder = false
  text : x.isPlainText = false
  image : x.isImage = false
  program : ¬(x.isExecutable = true ∧ NamesApp x)

-- A program called like the operand, with or without `.exe`.
def Called (t : String) (x : Item) : Prop :=
  x.isExecutable = true ∧
    (Text.sameIgnoringAsciiCase x.name t = true ∨
      Text.sameIgnoringAsciiCase x.name (t ++ ".exe") = true)

inductive Target
  | app (app : App)
  | item (x : Item)

-- `Denotes s t target`: the operand `t` stands for `target`. An application comes first, then the
-- item at that path, then the first program of that name, depth first.
inductive Denotes (s : Scene) (t : String) : Target → Prop
  | app {app : App} (named : app.answersTo t = true) : Denotes s t (.app app)
  | item {x : Item} (unnamed : ∀ app : App, app.answersTo t = false)
      (found : s.lookup? t = some x) : Denotes s t (.item x)
  | program {x : Item} {before after : List Item} (unnamed : ∀ app : App, app.answersTo t = false)
      (missing : s.lookup? t = none) (walk : s.drive.root.walk = before ++ x :: after)
      (called : Called t x) (first : ∀ y ∈ before, ¬Called t y) : Denotes s t (.item x)

-- The operand stands for nothing.
structure Absent (s : Scene) (t : String) : Prop where
  unnamed : ∀ app : App, app.answersTo t = false
  missing : s.lookup? t = none
  nowhere : ∀ x ∈ s.drive.root.walk, ¬Called t x

-- What a window shows of a target that is opened from the folder `here`.
inductive Shows (here : String) : Target → Content → Prop
  | app (app : App) : Shows here (.app app) (app.defaultContent here)
  | folder {x : Item} (folder : x.isFolder = true) : Shows here (.item x) (.explorer x.path)
  | text {x : Item} (file : x.isFolder = false) (text : x.isPlainText = true) :
      Shows here (.item x)
        (.notepad (some x.path) (some x.name) (x.entry.content.getD "") x.entry.isProtected)
  | image {x : Item} (file : x.isFolder = false) (image : x.isImage = true) :
      Shows here (.item x) (.imageViewer x.path x.name x.entry.payload)
  | program {x : Item} {app : App} (file : x.isFolder = false) (program : x.isExecutable = true)
      (starts : Starts x app) : Shows here (.item x) (app.defaultContent (Path.parent x.path))

variable {s : Scene} {t here : String} {x : Item}

theorem namesApp_iff : NamesApp x ↔ ∃ app, Starts x app := by
  constructor
  · intro h
    by_cases hcontent : ∃ text, x.entry.content = some text ∧
        ∃ app : App, app.answersTo (Text.trim text) = true
    · obtain ⟨text, htext, app, happ⟩ := hcontent
      exact ⟨app, .byContent htext happ⟩
    · obtain ⟨stem, hstem, app, happ⟩ := h.resolve_left hcontent
      refine ⟨app, .byName (fun text htext other => ?_) hstem happ⟩
      exact Bool.eq_false_iff.mpr fun hother => hcontent ⟨text, htext, other, hother⟩
  · rintro ⟨app, hstarts⟩
    cases hstarts with
    | byContent content named => exact .inl ⟨_, content, app, named⟩
    | byName unnamed cut named => exact .inr ⟨_, cut, app, named⟩

theorem isProgramNamed_iff : isProgramNamed t x = true ↔ Called t x := by
  unfold isProgramNamed Called
  rw [Bool.and_eq_true, Bool.or_eq_true]

theorem findFirst?_eq_some_iff {root : Item} :
    root.findFirst? (isProgramNamed t) = some x ↔
      ∃ before after, root.walk = before ++ x :: after ∧ Called t x ∧ ∀ y ∈ before, ¬Called t y := by
  rw [Item.findFirst?, List.find?_eq_some_iff_append]
  simp only [isProgramNamed_iff, Bool.not_eq_true', Bool.eq_false_iff, Ne]
  constructor
  · rintro ⟨hcalled, before, after, hwalk, hfirst⟩
    exact ⟨before, after, hwalk, hcalled, hfirst⟩
  · rintro ⟨before, after, hwalk, hcalled, hfirst⟩
    exact ⟨hcalled, before, after, hwalk, hfirst⟩

theorem findFirst?_eq_none_iff {root : Item} :
    root.findFirst? (isProgramNamed t) = none ↔ ∀ x ∈ root.walk, ¬Called t x := by
  rw [Item.findFirst?, List.find?_eq_none]
  simp only [isProgramNamed_iff]

section Denotes

variable {target target' : Target}

theorem Denotes.not_absent (h : Denotes s t target) : ¬Absent s t := by
  intro habsent
  cases h with
  | app named => simp [habsent.unnamed] at named
  | item unnamed found => simp [habsent.missing] at found
  | program unnamed missing walk called first =>
      exact habsent.nowhere _ (by simp [walk]) called

-- An operand stands for one target at most.
theorem Denotes.unique (h : Denotes s t target) (h' : Denotes s t target') : target = target' := by
  cases h with
  | app named =>
      cases h' with
      | app named' => rw [App.eq_of_answersTo named named']
      | item unnamed | program unnamed => simp [unnamed] at named
  | item unnamed found =>
      cases h' with
      | app named' => simp [unnamed] at named'
      | item _ found' => rw [Option.some.inj (found.symm.trans found')]
      | program _ missing => simp [missing] at found
  | program unnamed missing walk called first =>
      cases h' with
      | app named' => simp [unnamed] at named'
      | item _ found' => simp [missing] at found'
      | program _ _ walk' called' first' =>
          have hfirst := findFirst?_eq_some_iff.mpr ⟨_, _, walk, called, first⟩
          have hfirst' := findFirst?_eq_some_iff.mpr ⟨_, _, walk', called', first'⟩
          rw [Option.some.inj (hfirst.symm.trans hfirst')]

theorem Starts.unique {app other : App} (h : Starts x app) (h' : Starts x other) : app = other := by
  cases h with
  | byContent content named =>
      cases h' with
      | byContent content' named' =>
          obtain rfl := Option.some.inj (content.symm.trans content')
          exact App.eq_of_answersTo named named'
      | byName unnamed' => simp [unnamed' _ content] at named
  | byName unnamed cut named =>
      cases h' with
      | byContent content' named' => simp [unnamed _ content'] at named'
      | byName _ cut' named' =>
          obtain rfl := Option.some.inj (cut.symm.trans cut')
          exact App.eq_of_answersTo named named'

-- No item is of two of these kinds.
theorem not_image_of_text (h : x.isPlainText = true) :
    x.isImage = false ∧ x.isExecutable = false := by
  have hext : x.entry.extension = some "txt" := of_decide_eq_true h
  simp [Item.isImage, Item.isExecutable, hext]

theorem not_program_of_image (h : x.isImage = true) : x.isExecutable = false := by
  simp only [Item.isImage, Item.isExecutable, List.any_cons, List.any_nil, Bool.or_false,
    Bool.or_eq_true, decide_eq_true_eq] at h ⊢
  rcases h with h | h | h | h | h <;> simp [h]

-- Of one target a window shows one thing.
theorem Shows.unique {content content' : Content} (h : Shows here target content)
    (h' : Shows here target content') : content = content' := by
  cases h with
  | app app =>
      cases h' with
      | app => rfl
  | folder folder =>
      cases h' with
      | folder => rfl
      | text file | image file | program file => simp [file] at folder
  | text file text =>
      obtain ⟨himage, hprogram⟩ := not_image_of_text text
      cases h' with
      | folder folder' => simp [file] at folder'
      | text => rfl
      | image _ image' => simp [himage] at image'
      | program _ program' => simp [hprogram] at program'
  | image file image =>
      have hprogram := not_program_of_image image
      cases h' with
      | folder folder' => simp [file] at folder'
      | text _ text' => simp [(not_image_of_text text').1] at image
      | image => rfl
      | program _ program' => simp [hprogram] at program'
  | program file program starts =>
      cases h' with
      | folder folder' => simp [file] at folder'
      | text _ text' => simp [(not_image_of_text text').2] at program
      | image _ image' => simp [not_program_of_image image'] at program
      | program _ _ starts' => rw [starts.unique starts']

theorem Shows.not_unsupported {content : Content} (h : Shows here (.item x) content) :
    ¬Unsupported x := by
  intro hno
  cases h with
  | folder folder => simp [hno.file] at folder
  | text file text => simp [hno.text] at text
  | image file image => simp [hno.image] at image
  | program file program starts => exact hno.program ⟨program, namesApp_iff.mpr ⟨_, starts⟩⟩

end Denotes

section Open

variable (command t : String)

-- The window that shows something: one of the application that is made for it.
def opening (content : Content) : Found :=
  .window (content.app.window content)

theorem program_cases (hstem : ∃ stem, x.stem? = some stem) :
    (∃ app, Starts x app ∧
        program command t x = opening (app.defaultContent (Path.parent x.path))) ∨
      ¬NamesApp x ∧ program command t x = .failed (.unsupportedFormat command t) := by
  obtain ⟨stem, hstem⟩ := hstem
  unfold program
  simp only [hstem]
  split
  · next app happ =>
      obtain ⟨text, htext, hfind⟩ := Option.bind_eq_some_iff.mp happ
      exact .inl ⟨app, .byContent htext (App.find?_eq_some_iff.mp hfind), rfl⟩
  · next hnone =>
      have hunnamed : ∀ text, x.entry.content = some text →
          ∀ app : App, app.answersTo (Text.trim text) = false := by
        intro text htext
        rw [htext, Option.bind_some] at hnone
        exact App.find?_eq_none_iff.mp hnone
      split
      · next app happ =>
          exact .inl ⟨app, .byName hunnamed hstem (App.find?_eq_some_iff.mp happ), rfl⟩
      · next hnot =>
          refine .inr ⟨?_, rfl⟩
          rintro (⟨text, htext, app, happ⟩ | ⟨stem', hstem', app, happ⟩)
          · simp [hunnamed text htext] at happ
          · obtain rfl := Option.some.inj (hstem.symm.trans hstem')
            simp [App.find?_eq_none_iff.mp hnot] at happ

-- With an item whose extension fits its name there is something to show or a reason why not.
theorem openItem_cases (hlabel : x.entry.Labelled) (here : String) :
    (∃ content, Shows here (.item x) content ∧ openItem command t x = opening content) ∨
      Unsupported x ∧ openItem command t x = .failed (.unsupportedFormat command t) := by
  unfold openItem
  simp only
  split
  · next hfolder => exact .inl ⟨_, .folder hfolder, rfl⟩
  · next hfile =>
      have hfile : x.isFolder = false := by simpa using hfile
      split
      · next htext => exact .inl ⟨_, .text hfile htext, rfl⟩
      · next htext =>
          split
          · next himage => exact .inl ⟨_, .image hfile himage, rfl⟩
          · next himage =>
              have htext : x.isPlainText = false := by simpa using htext
              have himage : x.isImage = false := by simpa using himage
              split
              · next hprogram =>
                  obtain ⟨stem, -, -, -, -, -, hstem⟩ := Item.exists_stem hlabel hprogram
                  rcases program_cases command t ⟨stem, hstem⟩ with ⟨app, hstarts, heq⟩ | ⟨hno, heq⟩
                  · exact .inl ⟨_, .program hfile hprogram hstarts, heq⟩
                  · exact .inr ⟨⟨hfile, htext, himage, fun h => hno h.2⟩, heq⟩
              · next hprogram =>
                  exact .inr ⟨⟨hfile, htext, himage, fun h => hprogram h.1⟩, rfl⟩

-- A search ends in one of three ways, and it never crashes on a tree where the extensions fit.
theorem search_cases (hr : s.drive.root.Labelled) :
    Absent s t ∧ search command s t = .failed (.notFound command t) ∨
      (∃ x, Denotes s t (.item x) ∧ Unsupported x) ∧
        search command s t = .failed (.unsupportedFormat command t) ∨
      ∃ target content, Denotes s t target ∧ Shows s.session.path target content ∧
        search command s t = opening content := by
  have hopen {x : Item} (hdenotes : Denotes s t (.item x)) (hx : x ∈ s.drive.root.walk) :
      (∃ x, Denotes s t (.item x) ∧ Unsupported x) ∧
          openItem command t x = .failed (.unsupportedFormat command t) ∨
        ∃ target content, Denotes s t target ∧ Shows s.session.path target content ∧
          openItem command t x = opening content := by
    have hlabel := (Item.labelled_iff.mp (hr.of_mem_walk hx)).1
    rcases openItem_cases command t hlabel s.session.path with ⟨content, hshows, heq⟩ | ⟨hno, heq⟩
    · exact .inr ⟨_, content, hdenotes, hshows, heq⟩
    · exact .inl ⟨⟨x, hdenotes, hno⟩, heq⟩
  cases happ : App.find? t with
  | some app =>
      refine .inr (.inr ⟨_, _, .app (App.find?_eq_some_iff.mp happ), .app app, ?_⟩)
      rw [search, happ, opening, App.app_defaultContent]
  | none =>
      have hunnamed := App.find?_eq_none_iff.mp happ
      cases hfound : s.lookup? t with
      | some x =>
          have hway : s.drive.root.descend (Path.route (s.locate t)) = some x := hfound
          have hsearch : search command s t = openItem command t x := by rw [search, happ, hfound]
          rw [hsearch]
          exact .inr (hopen (.item hunnamed hfound) (Item.mem_walk_of_descend hway))
      | none =>
          cases hfirst : s.drive.root.findFirst? (isProgramNamed t) with
          | some x =>
              obtain ⟨before, after, hwalk, hcalled, hnone⟩ := findFirst?_eq_some_iff.mp hfirst
              have hsearch : search command s t = openItem command t x := by
                rw [search, happ, hfound, hfirst]
              rw [hsearch]
              exact .inr (hopen (.program hunnamed hfound hwalk hcalled hnone) (by simp [hwalk]))
          | none =>
              refine .inl ⟨⟨hunnamed, hfound, findFirst?_eq_none_iff.mp hfirst⟩, ?_⟩
              rw [search, happ, hfound, hfirst]

end Open

-- What becomes of the operand `t` of a command called by `name`, in a scene where the last window
-- has the number `last`.
structure Launches (s : Scene) (last : Nat) (name t : String)
    (result : Scene × Except Failure Outcome) : Prop where
  notFound : result.2 = .error (.notFound name t) ↔ Absent s t
  denotes : ¬Absent s t ↔ ∃! target, Denotes s t target
  unsupported : result.2 = .error (.unsupportedFormat name t) ↔
    ∃ x, Denotes s t (.item x) ∧ Unsupported x
  unchanged : Absent s t ∨ (∃ x, Denotes s t (.item x) ∧ Unsupported x) → result.1 = s
  shown : ¬Absent s t → (¬∃ x, Denotes s t (.item x) ∧ Unsupported x) →
    ∃ target content, Denotes s t target ∧ Shows s.session.path target content
  opened : ∀ target content, Denotes s t target → Shows s.session.path target content →
    let window := content.app.window content
    window.content = content ∧ window.app = content.app ∧
      result = (s.withWindow last window, .ok (.ofLine (.success
        ("Started " ++ window.title ++ " (window " ++ Nat.repr (last + 1) ++ ")"))))

section Launches

variable {last : Nat} {name : String} {target : Target}

theorem Denotes.existsUnique (h : Denotes s t target) : ∃! target, Denotes s t target :=
  ⟨target, h, fun _ h' => h'.unique h⟩

theorem launches_absent (h : Absent s t) :
    Launches s last name t (s, .error (.notFound name t)) where
  notFound := iff_of_true rfl h
  denotes := iff_of_false (not_not_intro h) fun ⟨_, hdenotes, _⟩ => hdenotes.not_absent h
  unsupported := iff_of_false (by simp) fun ⟨_, hdenotes, _⟩ => hdenotes.not_absent h
  unchanged _ := rfl
  shown hpresent := absurd h hpresent
  opened _ _ hdenotes := absurd h hdenotes.not_absent

theorem launches_unsupported {x : Item} (h : Denotes s t (.item x)) (hno : Unsupported x) :
    Launches s last name t (s, .error (.unsupportedFormat name t)) where
  notFound := iff_of_false (by simp) h.not_absent
  denotes := iff_of_true h.not_absent h.existsUnique
  unsupported := iff_of_true rfl ⟨x, h, hno⟩
  unchanged _ := rfl
  shown _ hopens := absurd ⟨x, h, hno⟩ hopens
  opened target content hdenotes hshows := by
    obtain rfl := hdenotes.unique h
    exact absurd hno hshows.not_unsupported

theorem launches_opening {content : Content} (h : Denotes s t target)
    (hshows : Shows s.session.path target content) :
    let window := content.app.window content
    Launches s last name t (s.withWindow last window, .ok (.ofLine (.success
      ("Started " ++ window.title ++ " (window " ++ Nat.repr (last + 1) ++ ")")))) := by
  have hopens : ¬∃ x, Denotes s t (.item x) ∧ Unsupported x := by
    rintro ⟨x, hx, hno⟩
    obtain rfl := h.unique hx
    exact hshows.not_unsupported hno
  constructor
  · exact iff_of_false (by simp) h.not_absent
  · exact iff_of_true h.not_absent h.existsUnique
  · exact iff_of_false (by simp) hopens
  · rintro (habsent | hno)
    · exact absurd habsent h.not_absent
    · exact absurd hno hopens
  · exact fun _ _ => ⟨target, content, h, hshows⟩
  · intro target' content' h' hshows'
    obtain rfl := h.unique h'
    obtain rfl := hshows.unique hshows'
    exact ⟨rfl, rfl, rfl⟩

theorem call_run_of_failed {call : Call} {failure : Failure} (harg : call.line.firstArg? = some t)
    (hsearch : search call.name s t = .failed failure) :
    s.call Registry.run call = (s, .error failure) := by
  have hreply : run call s = s.fail failure := by
    unfold run
    simp only [harg, hsearch]
  simp only [Scene.call, Registry.run, hreply, Scene.fail]

theorem call_run_of_opening {call : Call} {content : Content}
    (harg : call.line.firstArg? = some t) (hlast : s.windows = some last)
    (hsearch : search call.name s t = opening content) :
    let window := content.app.window content
    s.call Registry.run call = (s.withWindow last window, .ok (.ofLine (.success
      ("Started " ++ window.title ++ " (window " ++ Nat.repr (last + 1) ++ ")")))) := by
  intro window
  have hopen : s.open? window = some (last + 1, s.withWindow last window) :=
    s.open?_eq_some_iff.mpr ⟨last, hlast, rfl, rfl⟩
  have hreply : run call s = (s.withWindow last window).done (.ofLine (.success
      ("Started " ++ window.title ++ " (window " ++ Nat.repr (last + 1) ++ ")"))) := by
    unfold run
    simp only [harg, hsearch, opening, hopen, window]
  simp only [Scene.call, Registry.run, hreply, Scene.done]

end Launches

end Launch

end DesktopShell

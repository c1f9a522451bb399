import DesktopShell.Shell.Command

-- The command that opens windows: `run`.
namespace DesktopShell.Launch

-- What a search for something to open ends with.
inductive Found
  | window (window : Window)
  | failed (failure : Failure)
  | crashed

-- The application that a program starts: the one its content names, else the one its own name
-- without extension does.
def program (command target : String) (item : Item) : Found :=
  let start (app : App) : Found :=
    let content := app.defaultContent (Path.parent item.path)
    .window (content.app.window content)
  match item.entry.content.bind (App.find? <| Text.trim ·) with
  | some app => start app
  | none =>
      match item.stem? with
      | none => .crashed
      | some stem =>
          match App.find? stem with
          | some app => start app
          | none => .failed (.unsupportedFormat command target)

-- The window for an item: folders, texts and images open in their viewers.
def openItem (command target : String) (item : Item) : Found :=
  let view (content : Content) : Found := .window (content.app.window content)
  if item.isFolder then view (.explorer item.path)
  else if item.isPlainText then
    view (.notepad (some item.path) (some item.name) (item.entry.content.getD "")
      item.entry.isProtected)
  else if item.isImage then view (.imageViewer item.path item.name item.entry.payload)
  else if item.isExecutable then program command target item
  else .failed (.unsupportedFormat command target)

-- A program is known by its name with or without `.exe`.
def isProgramNamed (target : String) (item : Item) : Bool :=
  item.isExecutable &&
    (Text.sameIgnoringAsciiCase item.name target ||
      Text.sameIgnoringAsciiCase item.name (target ++ ".exe"))

-- An application of that name comes first, then an item at that path, then the first program
-- of that name anywhere on the drive.
def search (command : String) (scene : Scene) (target : String) : Found :=
  match App.find? target with
  | some app => .window (app.window (app.defaultContent scene.session.path))
  | none =>
      match scene.lookup? target with
      | some item => openItem command target item
      | none =>
          match scene.drive.root.findFirst? (isProgramNamed target) with
          | some item => openItem command target item
          | none => .failed (.notFound command target)

def run : Handler := fun call scene =>
  match call.line.firstArg? with
  | none => scene.fail (.missingOperand call.name "run <program|file>")
  | some target =>
      match search call.name scene target with
      | .crashed => ⟨scene, .crashed⟩
      | .failed failure => scene.fail failure
      | .window window =>
          match scene.open? window with
          | none => scene.fail (.noWindowManager call.name)
          | some (id, scene) =>
              scene.done (.ofLine (.success
                ("Started " ++ window.title ++ " (window " ++ Nat.repr id ++ ")")))

end DesktopShell.Launch

import DesktopShell.Shell.Command

-- Commands that look around: `cd`, `pwd`, `ls` and `cat`.
namespace DesktopShell.Browse

-- The folder is entered under its own path, also when a shortcut led there.
def changeFolder : Handler := fun call scene =>
  match call.line.firstArg? with
  | none => scene.done (.ofLine (.text scene.session.path))
  | some target =>
      match scene.lookup? target with
      | none => scene.fail (.notFound call.name target)
      | some item =>
          if item.isFolder then (scene.mapSession (·.setPath item.path)).done .nothing
          else scene.fail (.notADirectory call.name target)

def printFolder : Handler := fun _ scene =>
  scene.done (.ofLine (.text scene.session.path))

def styleOf (item : Item) : Style :=
  if item.isExecutable then .executable else .file

def sortByName (items : List Item) : List Item :=
  items.mergeSort fun a b => a.name ≤ b.name

-- A folder's children: folders first, then files with their sizes, both by name.
def listing (folder : Item) : List Line :=
  let (folders, files) := folder.children.partition Item.isFolder
  (sortByName folders).map (fun x => .entry x.name "<DIR>" .directory) ++
    (sortByName files).map fun x =>
      .entry x.name (Text.padLeft 8 (Nat.repr x.size)) (styleOf x)

def list : Handler := fun call scene =>
  let target := call.line.firstArg?.getD "."
  match scene.lookup? target with
  | none => scene.fail (.notFound call.name target)
  | some item =>
      if !item.isFolder then
        scene.done (.ofLine (.entry item.name (item.entry.extension.getD "") (styleOf item)))
      else if item.children.isEmpty then scene.done (.ofLine (.info "Directory is empty."))
      else scene.done (.ofLines (listing item))

-- Only files called `.txt` are shown.
def showText : Handler := fun call scene =>
  match call.line.firstArg? with
  | none => scene.fail (.missingOperand call.name "cat <file>")
  | some target =>
      match scene.lookup? target with
      | none => scene.fail (.notFound call.name target)
      | some item =>
          if item.isFolder then scene.fail (.isADirectory call.name target)
          else if !item.isPlainText then scene.fail (.unsupportedFormat call.name target)
          else
            let content := item.entry.content.getD ""
            if content = "" then scene.done (.ofLine (.info (item.name ++ " is empty.")))
            else scene.done (.ofLines ((Text.lines content).map .text))

end DesktopShell.Browse

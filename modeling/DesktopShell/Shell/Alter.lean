import DesktopShell.Shell.Command

-- Commands that change the drive: `mkdir`, `touch` and `rm`.
namespace DesktopShell.Alter

-- The characters that no name may hold.
def forbidden : List Char := ['\\', '/', ':', '*', '?', '"', '<', '>', '|']

def isValidName (name : String) : Bool :=
  name ≠ "." && name ≠ ".." && !name.toList.any (forbidden.contains ·)

-- Make a new item. Its folder has to be there already and below the root, and its name has to
-- be free.
def create (what : NewItem) (usage done : String) : Handler := fun call scene =>
  match call.line.firstArg? with
  | none => scene.fail (.missingOperand call.name usage)
  | some target =>
      let place := scene.locate target
      let folder := Path.parent place
      let name := Path.fileName place
      if Path.isRoot place || Path.isRoot folder then
        scene.fail (.permissionDenied call.name target)
      else if !isValidName name then
        scene.fail (.invalidArgument call.name (target ++ ": invalid name"))
      else
        match scene.drive.find? folder with
        | none => scene.fail (.notFound call.name (Path.display folder))
        | some parent =>
            if !parent.isFolder then
              scene.fail (.notADirectory call.name (Path.display folder))
            else if (parent.child? name).isSome then
              scene.fail (.alreadyExists call.name target)
            else
              match scene.commit? (.create what parent.path name) call.clock.now with
              | none => scene.fail (.notFound call.name (Path.display folder))
              | some (item, scene) => scene.done (.ofLine (.success (done ++ item.name)))

def makeFolder : Handler := create .folder "mkdir <name>" "Directory created: "

def makeFile : Handler := create (.text "") "touch <name>" "File created: "

-- Delete an item with all that is in it, unless some of that is protected.
def remove : Handler := fun call scene =>
  match call.line.firstArg? with
  | none => scene.fail (.missingOperand call.name "rm <path>")
  | some target =>
      match scene.lookup? target with
      | none => scene.fail (.notFound call.name target)
      | some item =>
          if item.containsProtected || Path.isRoot item.path then
            scene.fail (.permissionDenied call.name target)
          else
            match scene.commit? (.delete item.path) call.clock.now with
            | none => scene.fail (.notFound call.name target)
            | some (_, scene) => scene.done (.ofLine (.success ("Deleted: " ++ item.name)))

end DesktopShell.Alter

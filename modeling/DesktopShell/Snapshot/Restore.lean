import DesktopShell.Drive.Store
import DesktopShell.Json.Parse
import DesktopShell.Json.Render
import DesktopShell.Snapshot.Check
import DesktopShell.Snapshot.Read

namespace DesktopShell

-- Why a text is no snapshot: it does not describe an item, or not one that a drive can hold.
inductive Damage
  | unreadable
  | flawed (flaw : Snapshot.Flaw)
  deriving DecidableEq

namespace Snapshot

def tree? (text : String) : Except Damage Item :=
  match (Json.parse? text).bind (item? maxNesting) with
  | none => .error .unreadable
  | some root =>
      match flaw? root with
      | some flaw => .error (.flawed flaw)
      | none => .ok root

-- The largest number in a tree.
def maxId (root : Item) : ItemId :=
  root.walk.foldl (fun top x => if top < x.id then x.id else top) root.id

end Snapshot

namespace Drive

-- The text that a drive is kept as.
def snapshot (d : Drive) : String :=
  d.root.toJson.render

-- The drive that a snapshot describes. New items get numbers from `nextId` on, or behind all
-- that are in the tree.
def ofSnapshot (nextId : ItemId) (text : String) : Except Damage Drive := do
  let root ← Snapshot.tree? text
  let behind := Snapshot.maxId root + 1
  return .ofRoot root (if nextId < behind then behind else nextId)

end Drive

end DesktopShell

import DesktopShell.Drive.Change

namespace DesktopShell

-- What the desktop is told about the icons of its folder.
inductive Icon
  | placed (path : String)
  | removed (path : String)
  deriving DecidableEq

-- A drive: its tree, the number for the next item, how many trees have been published so
-- far, and the folder whose icons a desktop follows, if there is one.
structure Drive where
  root : Item
  nextId : ItemId
  revision : Nat
  desktop : Option String

-- What a party has seen of a drive when it works out a change: the tree, and which one it was.
structure Sight where
  root : Item
  revision : Nat

structure Committed where
  subject : Item
  icon : Option Icon
  drive : Drive

-- How an attempt to change a drive ends. A stale one found that another tree had been
-- published meanwhile, and is to be made again.
inductive Attempt
  | refused
  | stale (drive : Drive)
  | committed (result : Committed)

namespace Drive

def ofRoot (root : Item) (nextId : ItemId) : Drive :=
  ⟨root, nextId, 0, none⟩

def withDesktop (d : Drive) (folder : String) : Drive :=
  { d with desktop := some (Path.normalize folder) }

def sight (d : Drive) : Sight := ⟨d.root, d.revision⟩

-- The desktop hears of binary files created right in its folder and of whatever is deleted
-- from there.
def icon? (d : Drive) (change : Change) (subject : Item) : Option Icon :=
  if d.desktop = some (Path.parent subject.path) then
    match change with
    | .create (.binary _) _ _ => some (.placed subject.path)
    | .delete _ => some (.removed subject.path)
    | _ => none
  else none

-- Work a change out on the tree that was seen and publish the outcome, if that tree is still
-- the drive's. The number for a new item is used up either way.
def attempt (d : Drive) (seen : Sight) (change : Change) (now : Moment) : Attempt :=
  match change.plan? seen.root ⟨d.nextId, now⟩ with
  | none => .refused
  | some plan =>
      let d := if change.creates then { d with nextId := d.nextId + 1 } else d
      if d.revision = seen.revision then
        .committed
          { subject := plan.subject
            icon := d.icon? change plan.subject
            drive := { d with root := plan.root, revision := d.revision + 1 } }
      else .stale d

-- Change a drive that nobody else changes meanwhile.
def commit? (d : Drive) (change : Change) (now : Moment) : Option Committed :=
  match d.attempt d.sight change now with
  | .committed result => some result
  | _ => none

def find? (d : Drive) (p : String) : Option Item :=
  d.root.find? p

end Drive

end DesktopShell

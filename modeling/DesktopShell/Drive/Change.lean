import DesktopShell.Drive.Edit
import DesktopShell.Drive.Find

namespace DesktopShell

inductive NewItem
  | folder
  | text (content : String)
  | binary (payload : Bytes)

def NewItem.make (stamp : Stamp) (name path : String) : NewItem → Item
  | .folder => .folder stamp name path
  | .text content => .textFile stamp name path content
  | .binary payload => .binaryFile stamp name path payload

-- The ways to change a drive. A name that is taken can be given again, so whoever cares has
-- to look first.
inductive Change
  | create (what : NewItem) (folder name : String)
  | update (path content : String)
  | delete (path : String)

def Change.creates : Change → Bool
  | .create .. => true
  | _ => false

-- A change worked out on one tree: the tree after it, and the item it is about. That is the
-- new item, or the one that was there before it was updated or deleted.
structure Plan where
  root : Item
  subject : Item

namespace Change

-- The item an update or a deletion is about. The root is never one.
def target? (root : Item) (p : String) : Option Item :=
  (root.find? p).filter (!Path.isRoot ·.path)

def plan? (root : Item) (stamp : Stamp) : Change → Option Plan
  | .create what folder name => do
      let parent ← root.find? folder
      if !parent.isFolder then none
      else
        let item := what.make stamp name (Path.join parent.path name)
        let after ← root.rebuild? stamp.now (.insert item) (Path.segments parent.path)
        return ⟨after, item⟩
  | .update path content => do
      let target ← target? root path
      if target.isFolder then none
      else
        let updated : Item :=
          .mk { target.entry with content := some content, modified := stamp.now } target.children?
        let after ← root.rebuild? stamp.now (.replace updated)
          (Path.segments (Path.parent target.path))
        return ⟨after, target⟩
  | .delete path => do
      let target ← target? root path
      if target.containsProtected then none
      else
        let after ← root.rebuild? stamp.now (.remove target.id)
          (Path.segments (Path.parent target.path))
        return ⟨after, target⟩

end Change

end DesktopShell

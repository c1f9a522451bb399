import DesktopShell.Drive.Item

namespace DesktopShell.Snapshot

-- What can be wrong with a tree of items.
inductive Flaw
  | root
  | duplicate (id : ItemId)
  | children (path : String)
  | misplaced (path : String)
  deriving DecidableEq

def Flaw.message (flaw : Flaw) : String :=
  "malformed snapshot: " ++
    match flaw with
    | .root => "root must be a folder at '/'"
    | .duplicate id => "duplicate id #" ++ Nat.repr id.toNat
    | .children path => path ++ ": only folders carry children"
    | .misplaced path => path ++ ": path does not match position"

-- Search the items on a stack and all that is in them, the last child of a folder first.
-- `seen` are the numbers met so far.
def search (seen : List ItemId) : List Item → Option Flaw
  | [] => none
  | x :: rest =>
      if x.id ∈ seen then some (.duplicate x.id)
      else if x.isFolder ≠ x.children?.isSome then some (.children x.path)
      else
        match x.children.find? fun c => c.path ≠ Path.join x.path c.name with
        | some c => some (.misplaced c.path)
        | none => search (x.id :: seen) (x.children.reverse ++ rest)
termination_by pending => Item.countAll pending
decreasing_by
  simp only [Item.countAll_append, Item.countAll_reverse, Item.countAll, Item.count_eq]
  omega

-- The first flaw found in a tree. A tree without any is one that a drive can hold.
def flaw? (root : Item) : Option Flaw :=
  if !root.isFolder || !Path.isRoot root.path then some .root else search [] [root]

end DesktopShell.Snapshot

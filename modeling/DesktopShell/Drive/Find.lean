import DesktopShell.Drive.Item
import DesktopShell.Path.Shortcut

namespace DesktopShell.Item

-- Go down by name. Of several children with one name the first is taken.
def descend : List String → Item → Option Item
  | [], x => some x
  | name :: rest, x =>
      match x.child? name with
      | some child => descend rest child
      | none => none

-- The item that a path denotes, shortcuts included.
def find? (root : Item) (p : String) : Option Item :=
  root.descend (Path.route p)

-- The first item of a walk that satisfies a test.
def findFirst? (root : Item) (test : Item → Bool) : Option Item :=
  root.walk.find? test

end DesktopShell.Item

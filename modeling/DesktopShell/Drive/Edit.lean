import DesktopShell.Drive.Item

namespace DesktopShell

-- What can be done to the children of one folder. An item is replaced or removed by its
-- number, never by its name.
inductive Edit
  | insert (item : Item)
  | replace (item : Item)
  | remove (id : ItemId)

-- Change the first element that passes a test. There is no result when none passes or when
-- the change itself fails.
def updateFirst? {α : Type} (test : α → Bool) (change : α → Option α) : List α → Option (List α)
  | [] => none
  | x :: xs =>
      if test x then (change x).map (· :: xs)
      else (updateFirst? test change xs).map (x :: ·)

def Edit.run? : Edit → List Item → Option (List Item)
  | .insert item, cs => some (cs ++ [item])
  | .replace item, cs => updateFirst? (·.id = item.id) (fun _ => some item) cs
  | .remove id, cs => some (cs.filter (·.id ≠ id))

-- The tree with one folder edited, which is reached from here by name. That folder gets a new
-- modification time, the folders above it only a new child.
def Item.rebuild? (now : Moment) (edit : Edit) : List String → Item → Option Item
  | _, .mk _ none => none
  | [], .mk e (some cs) =>
      (edit.run? cs).map fun cs => .mk { e with modified := now } (some cs)
  | name :: rest, .mk e (some cs) =>
      (updateFirst? (·.name = name) (rebuild? now edit rest) cs).map fun cs => .mk e (some cs)

end DesktopShell

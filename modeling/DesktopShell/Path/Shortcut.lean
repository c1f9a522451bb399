import DesktopShell.Path.Resolve

-- Shortcuts are second names for folders of the drive. They are followed when an item is
-- looked up and never written into an item's own path.
namespace DesktopShell.Path

def shortcuts : List (String × String) :=
  [ ("/My Computer", "/"),
    ("/My Computer/C:", "/C:/"),
    ("/My Documents", "/C:/Users/Guest/Documents"),
    ("/Desktop", "/C:/Users/Guest/Desktop"),
    ("/Control Panel", "/C:/Windows/System32") ]

def shortcut? (p : String) : Option String :=
  shortcuts.lookup p

-- What follows a shortcut continues its target, with one slash between the two.
def continueFrom (target : String) (rest : List String) : String :=
  if target.toList.getLast? = some '/' then target ++ "/".intercalate rest
  else target ++ "/" ++ "/".intercalate rest

-- The path as spelled is tried first, then its first two segments, then its first one. A
-- path that starts with no shortcut stays as it is.
def followShortcut (p : String) : String :=
  match shortcut? p with
  | some target => target
  | none =>
      let parts := segments p
      let continued := [2, 1].findSome? fun n =>
        if parts.length ≤ n then none
        else (shortcut? (render (parts.take n))).map (continueFrom · (parts.drop n))
      continued.getD p

-- Where a target typed in a folder leads.
def locate (current target : String) : String :=
  normalize (followShortcut (resolve current target))

-- The segments to descend from the root of a drive to the item at a path.
def route (p : String) : List String :=
  segments (followShortcut (normalize p))

end DesktopShell.Path

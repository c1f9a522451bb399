import DesktopShell.Path.Basic

namespace DesktopShell.Path

-- One step of a relative path: a dot stays, two dots go up and stop at the root.
def step (here : List String) (part : String) : List String :=
  if part = "." then here else if part = ".." then here.dropLast else here ++ [part]

-- An absolute target is only normalized, so dots in it are names like any other. A relative
-- one is walked from the current folder.
def resolve (current target : String) : String :=
  if target.toList.head? = some '/' then normalize target
  else render ((segments target).foldl step (segments current))

end DesktopShell.Path

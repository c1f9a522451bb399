import DesktopShell.Path.Basic

namespace DesktopShell

-- What a host can set for a session.
structure Settings where
  homePath : String
  desktopPath : String
  user : String
  historyLimit : Nat
  transcriptLimit : Nat
  teletypeDelay : Nat
  deriving DecidableEq

namespace Settings

def default : Settings where
  homePath := "/C:/Users/Guest"
  desktopPath := "/C:/Users/Guest/Desktop"
  user := "guest"
  historyLimit := 50
  transcriptLimit := 1000
  teletypeDelay := 120

-- The rules that settings from a file have to keep.
inductive Fault
  | historyLimit
  | transcriptLimit
  | homePath
  deriving DecidableEq

def Fault.message : Fault → String
  | .historyLimit => "history_limit must be positive"
  | .transcriptLimit => "transcript_limit must be positive"
  | .homePath => "home_path must be absolute"

-- The first rule broken.
def fault? (s : Settings) : Option Fault :=
  if s.historyLimit = 0 then some .historyLimit
  else if s.transcriptLimit = 0 then some .transcriptLimit
  else if s.homePath.toList.head? ≠ some '/' then some .homePath
  else none

end Settings

end DesktopShell

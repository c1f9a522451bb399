import DesktopShell.History
import DesktopShell.Path.Basic
import DesktopShell.Settings
import DesktopShell.Shell.Outcome
import DesktopShell.Table

namespace DesktopShell

inductive Mode
  | normal
  | hack
  deriving DecidableEq

def Mode.name : Mode → String
  | .normal => "normal"
  | .hack => "hack"

-- All that one terminal remembers. `pending` are the lines of a paced outcome that have not
-- been shown yet.
structure Session where
  settings : Settings
  path : String
  mode : Mode
  values : Table String
  history : History
  effect : Option Effect
  transcript : Ring Line
  pending : List Line

-- What the rings of a session can have: the bytes that a place of its history and one of its
-- transcript take, and whether a block can still be had when so many bytes are taken.
structure Memory where
  entryWidth : Nat
  lineWidth : Nat
  grants (taken block : Nat) : Bool

namespace Memory

-- A machine of 64 bits that never runs out of memory.
def ample : Memory := ⟨24, 80, fun _ _ => true⟩

-- The blocks that can be had once a history has its places.
def rest (memory : Memory) (settings : Settings) : Nat → Bool :=
  memory.grants (max 1 settings.historyLimit * memory.entryWidth)

end Memory

namespace Session

-- A limit of zero counts as one.
def freshHistory (settings : Settings) : History :=
  .make (max 1 settings.historyLimit) (by omega)

def make (settings : Settings) : Session where
  settings := settings
  path := Path.normalize settings.homePath
  mode := .normal
  values := .empty
  history := freshHistory settings
  effect := none
  transcript := .make (max 1 settings.transcriptLimit) (by omega)
  pending := []

-- The history is the first to take its places.
def make? (memory : Memory) (settings : Settings) : Except Ring.Refusal Session := do
  let history ← History.make? memory.entryWidth (memory.grants 0) (max 1 settings.historyLimit)
  let transcript ← Ring.make? memory.lineWidth (memory.rest settings)
    (max 1 settings.transcriptLimit)
  return { make settings with history, transcript }

def setPath (s : Session) (path : String) : Session :=
  { s with path := Path.normalize path }

def setMode (s : Session) (mode : Mode) : Session :=
  { s with mode }

def value? (s : Session) (key : String) : Option String :=
  s.values.get? key

def setValue (s : Session) (key value : String) : Session :=
  { s with values := s.values.set key value }

def eraseValue (s : Session) (key : String) : Session :=
  { s with values := s.values.erase key }

-- The session value that keeps the way back from the mainframe.
def returnPathKey : String := "hack.return_path"

-- Go to the mainframe and remember where from.
def enterHack (s : Session) (address : String) : Session :=
  ((s.setValue returnPathKey s.path).setPath address).setMode .hack

-- Come back from the mainframe. The path that was remembered, if any, is taken up as it is
-- and forgotten.
def exitHack (s : Session) : Option String × Session :=
  match s.value? returnPathKey with
  | some path => (some path, ({ s with path }.eraseValue returnPathKey).setMode .normal)
  | none => (none, s.setMode .normal)

def prompt (s : Session) : String :=
  match s.mode with
  | .normal => Path.display s.path ++ ">"
  | .hack => "root@" ++ Path.fileName s.path ++ "# "

def recallPrevious (s : Session) : Option String × Session :=
  let (line, history) := s.history.recallPrevious
  (line, { s with history })

def recallNext (s : Session) : String × Session :=
  let (line, history) := s.history.recallNext
  (line, { s with history })

def cancelRecall (s : Session) : Session :=
  { s with history := s.history.resetCursor }

end Session

end DesktopShell

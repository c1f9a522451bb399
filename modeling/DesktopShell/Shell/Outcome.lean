import DesktopShell.Terminal.Line

namespace DesktopShell

-- What is drawn over the terminal.
inductive Effect
  | matrix
  | alarm
  | trace
  deriving DecidableEq

inductive EffectRequest
  | set (effect : Effect)
  | clear
  deriving DecidableEq

-- What a command that succeeded asks of the terminal: wipe it first, change the effect, and
-- show lines, `pace` milliseconds apart if it gives a pace.
structure Outcome where
  lines : List Line
  clear : Bool
  effect : Option EffectRequest
  pace : Option Nat
  deriving DecidableEq

namespace Outcome

def ofLines (lines : List Line) : Outcome :=
  ⟨lines, false, none, none⟩

def nothing : Outcome := ofLines []

def ofLine (line : Line) : Outcome := ofLines [line]

def wipe : Outcome := { nothing with clear := true }

def withEffect (o : Outcome) (effect : Effect) : Outcome :=
  { o with effect := some (.set effect) }

def withoutEffect (o : Outcome) : Outcome :=
  { o with effect := some .clear }

def paced (o : Outcome) (delay : Nat) : Outcome :=
  { o with pace := some delay }

end Outcome

end DesktopShell

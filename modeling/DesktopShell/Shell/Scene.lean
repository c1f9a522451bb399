import DesktopShell.Drive.Store
import DesktopShell.Shell.Session
import DesktopShell.Window

namespace DesktopShell

-- What can be noticed from outside, in the order in which it happens.
inductive Event
  | shown (line : Line)
  | cleared
  | opened (id : Nat) (window : Window)
  | icon (signal : Icon)

-- A session at work: the session, the drive it shares with others, the number of the last
-- window if there is a window manager, and all that has been noticeable so far.
structure Scene where
  session : Session
  drive : Drive
  windows : Option Nat
  log : List Event

namespace Scene

def note (s : Scene) (event : Event) : Scene :=
  { s with log := s.log ++ [event] }

def mapSession (s : Scene) (f : Session → Session) : Scene :=
  { s with session := f s.session }

-- Add a line to the transcript.
def print (s : Scene) (line : Line) : Scene :=
  (s.mapSession fun session =>
    { session with transcript := (session.transcript.push line).2 }).note (.shown line)

def printAll (s : Scene) (lines : List Line) : Scene :=
  lines.foldl print s

-- Wipe the transcript.
def clear (s : Scene) : Scene :=
  (s.mapSession fun session => { session with transcript := session.transcript.clear }).note .cleared

-- Show the next `n` of the pending lines.
def deliver (s : Scene) (n : Nat) : Scene :=
  let lines := s.session.pending.take n
  (s.mapSession fun session => { session with pending := session.pending.drop n }).printAll lines

def flush (s : Scene) : Scene :=
  s.deliver s.session.pending.length

-- Back to a new session, with an empty transcript. The drive stays as it is.
def reset (s : Scene) : Scene :=
  (s.mapSession fun session =>
    { Session.make session.settings with transcript := session.transcript }).clear

def setEffect (s : Scene) (effect : Option Effect) : Scene :=
  s.mapSession fun session => { session with effect }

-- The canonical path of an operand.
def locate (s : Scene) (target : String) : String :=
  Path.locate s.session.path target

def lookup? (s : Scene) (target : String) : Option Item :=
  s.drive.find? (s.locate target)

-- Change the drive and report what happens on the desktop.
def commit? (s : Scene) (change : Change) (now : Moment) : Option (Item × Scene) :=
  (s.drive.commit? change now).map fun result =>
    (result.subject,
      { s with
        drive := result.drive
        log := s.log ++ (result.icon.map Event.icon).toList })

-- Open a window, if there is a window manager, and get its number.
def open? (s : Scene) (window : Window) : Option (Nat × Scene) :=
  s.windows.map fun last =>
    (last + 1, { s with windows := some (last + 1), log := s.log ++ [.opened (last + 1) window] })

end Scene

end DesktopShell

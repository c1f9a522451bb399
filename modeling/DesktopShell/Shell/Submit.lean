import DesktopShell.Shell.Command

namespace DesktopShell.Scene

-- Call a command. A crash ends the call, not the session.
def call (s : Scene) (command : Command) (call : Call) : Scene × Except Failure Outcome :=
  let reply := command.handler call s
  match reply.ending with
  | .done outcome => (reply.scene, .ok outcome)
  | .failed failure => (reply.scene, .error failure)
  | .crashed => (reply.scene, .error (.internal call.name))

-- Run a line without showing anything. What the command does to the session and the drive is
-- done, the outcome it returns is not applied. A word that no command answers to is quoted as
-- it was typed.
def execute (s : Scene) (registry : Registry) (clock : Clock) (line : String) :
    Scene × Except Failure Outcome :=
  let parsed := CommandLine.parse line
  if parsed.isEmpty then (s, .ok .nothing)
  else
    match registry.find? parsed.name with
    | none => (s, .error (.unknownCommand (parsed.tokens.head?.getD "")))
    | some command => s.call command ⟨parsed, registry.catalog, clock⟩

-- The lines of a paced outcome are only queued.
def apply (s : Scene) (outcome : Outcome) : Scene :=
  let s := if outcome.clear then s.clear else s
  let s := match outcome.effect with
    | some (.set effect) => s.setEffect (some effect)
    | some .clear => s.setEffect none
    | none => s
  match outcome.pace with
  | some (_ + 1) =>
      s.mapSession fun session => { session with pending := session.pending ++ outcome.lines }
  | _ => s.printAll outcome.lines

-- Take up a line: show what an earlier line still has pending, echo the line behind the prompt,
-- and run it. Afterwards paced lines are pending, as many milliseconds apart as is returned.
def start (s : Scene) (registry : Registry) (clock : Clock) (line : String) : Scene × Nat :=
  let s := s.flush
  let s := s.mapSession fun session => { session with history := session.history.record line }
  let s := s.print (.command s.session.prompt line)
  match s.execute registry clock line with
  | (s, .ok outcome) => (s.apply outcome, outcome.pace.getD 0)
  | (s, .error failure) => (s.print (.error failure.message), 0)

-- Run a line and wait for all that it shows.
def submit (s : Scene) (registry : Registry) (clock : Clock) (line : String) : Scene :=
  (s.start registry clock line).1.flush

-- How many of the lines that come `delay` apart, the first at once, are there before `patience`
-- has passed. Nobody is too impatient for the first.
def shownWithin (delay patience : Nat) : Nat :=
  max 1 ((patience + (delay - 1)) / delay)

-- Run a line and wait no longer than `patience` for what it shows. The rest stays pending.
def submitFor (s : Scene) (registry : Registry) (clock : Clock) (line : String)
    (patience : Nat) : Scene :=
  let (s, delay) := s.start registry clock line
  s.deliver (shownWithin delay patience)

end DesktopShell.Scene

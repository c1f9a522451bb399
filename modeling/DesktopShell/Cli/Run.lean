import DesktopShell.Cli.Input
import DesktopShell.Cli.Options
import DesktopShell.Drive.Stock
import DesktopShell.Settings.File
import DesktopShell.Shell.Builtin
import DesktopShell.Shell.Submit
import DesktopShell.Snapshot.Restore

-- One run of the program: a session that takes its lines from the arguments or the input and
-- prints all that happens.
namespace DesktopShell.Cli

-- What a name stands for on the host: nothing at all, a file, or something that is there but
-- cannot be read, such as a folder.
inductive Place
  | absent
  | file (bytes : Bytes)
  | unreadable
  deriving DecidableEq

def Place.text? : Place → Option String
  | .file bytes => Cli.text? bytes
  | _ => none

-- What a run finds: what names stand for and which of them can be written to, its input, the
-- time before the first line and at each line, and the memory it can have.
structure Host where
  place : String → Place
  canWrite : String → Bool
  input : Bytes
  clock : Nat → Clock
  memory : Memory

-- What a run leaves behind: its exit code, what it has printed, and the text that has been
-- written to the file of the drive, if it has.
structure Finish where
  code : Nat
  output : String
  saved : Option String
  deriving DecidableEq

def versionText : String := "retrosh 0.1.0\n"

def helpText : String :=
  "Retro desktop command shell\n\n" ++
  "Usage: retrosh [OPTIONS]\n\n" ++
  "Options:\n" ++
  "  -c, --config <CONFIG>      TOML file overriding session settings\n" ++
  "  -s, --snapshot <SNAPSHOT>  JSON drive snapshot to load at start and save on exit\n" ++
  "  -e, --command <COMMANDS>   Run these lines instead of reading stdin\n" ++
  "  -h, --help                 Print help\n" ++
  "  -V, --version              Print version\n"

def banner : List String :=
  [ "RetroOS [Version 0.1.0]",
    "(C) Copyright RetroOS contributors.",
    "",
    "Type 'help' for available commands." ]

def line (text : String) : String := text ++ "\n"

def bannerText : String := String.join (banner.map line)

-- How an event appears on the output. Clearing the screen is a matter of control sequences.
def printed : Event → String
  | .shown l => line l.render
  | .cleared => "\x1b[2J\x1b[H"
  | .opened id window =>
      line ("[window " ++ Nat.repr id ++ "] " ++ window.title ++ " (" ++
        Nat.repr window.frame.width ++ "x" ++ Nat.repr window.frame.height ++ " at " ++
        Nat.repr window.frame.x ++ "," ++ Nat.repr window.frame.y ++ ")")
  | .icon _ => ""

-- The settings from the file that is named, which has to be there.
def settings? (place : String → Place) (options : Options) : Option Settings :=
  match options.config with
  | none => some .default
  | some path => do
      let text ← (place path).text?
      (Settings.ofFile text).toOption

-- The drive from the file that is named. When nothing is there yet, the run starts with the
-- stock.
def drive? (place : String → Place) (now : Moment) (options : Options) : Option Drive :=
  match options.snapshot.map place with
  | none | some .absent => some (Drive.stock now 1)
  | some found => do
      let text ← found.text?
      (Drive.ofSnapshot 1 text).toOption

-- The scene before the first line. There is always a window manager, which only prints.
def opening (settings : Settings) (drive : Drive) : Scene where
  session := .make settings
  drive := drive.withDesktop settings.desktopPath
  windows := some 0
  log := []

-- A session that has no room for its rings is none to start with.
def opening? (memory : Memory) (settings : Settings) (drive : Drive) :
    Except Ring.Refusal Scene := do
  return { opening settings drive with session := ← Session.make? memory settings }

-- The exit code of a run that has crashed. One that is denied memory is ended by a signal.
def crashCode : Ring.Refusal → Nat
  | .noCapacity | .overflow => 101
  | .denied => 134

-- Run lines one after the other, the first of them at the given tick of the clock.
def play (clock : Nat → Clock) (tick : Nat) (scene : Scene) : List String → Scene
  | [] => scene
  | l :: ls => play clock (tick + 1) (scene.submit Registry.builtin (clock tick) l) ls

-- A session without room crashes the run before it says anything. A drive that cannot be kept
-- fails it, but not before its last line.
def perform (host : Host) (options : Options) : Finish :=
  match settings? host.place options, drive? host.place (host.clock 0).now options with
  | some settings, some drive =>
      match opening? host.memory settings drive with
      | .error refusal => ⟨crashCode refusal, "", none⟩
      | .ok scene =>
          let script :=
            if options.commands = [] then Script.ofChunks (chunks host.input)
            else ⟨options.commands, true⟩
          let scene := play host.clock 1 scene script.lines
          let output := (if options.commands = [] then bannerText else "") ++
            String.join (scene.log.map printed)
          if script.isSound && options.snapshot.all host.canWrite then
            ⟨0, output, options.snapshot.map fun _ => scene.drive.snapshot⟩
          else ⟨1, output, none⟩
  | _, _ => ⟨1, "", none⟩

def run (host : Host) (args : List String) : Finish :=
  match Request.ofArguments args with
  | .help => ⟨0, helpText, none⟩
  | .version => ⟨0, versionText, none⟩
  | .misuse => ⟨2, "", none⟩
  | .run options => perform host options

end DesktopShell.Cli

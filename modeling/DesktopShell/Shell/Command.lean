import DesktopShell.CommandLine.Flags
import DesktopShell.Shell.Failure
import DesktopShell.Shell.Scene

namespace DesktopShell

-- The groups of the help, in the order in which they are listed.
inductive Category
  | navigation
  | fileSystem
  | applications
  | easterEggs
  | system
  deriving DecidableEq

def Category.all : List Category :=
  [.navigation, .fileSystem, .applications, .easterEggs, .system]

def Category.title : Category → String
  | .navigation => "Navigation"
  | .fileSystem => "File System"
  | .applications => "Applications"
  | .easterEggs => "Easter Eggs"
  | .system => "System"

-- What the help tells of a command. Hidden commands are not listed.
structure Manual where
  name : String
  aliases : List String
  category : Category
  usage : String
  description : String
  hidden : Bool

def Manual.answersTo (m : Manual) (word : String) : Bool :=
  Text.sameIgnoringAsciiCase m.name word || m.aliases.any (Text.sameIgnoringAsciiCase · word)

abbrev Catalog := List Manual

namespace Catalog

def find? (catalog : Catalog) (word : String) : Option Manual :=
  List.find? (·.answersTo word) catalog

-- The listed commands by category. A category without any is left out.
def byCategory (catalog : Catalog) : List (Category × List Manual) :=
  (Category.all.map fun category =>
    (category, List.filter (fun m => m.category = category && !m.hidden) catalog)).filter
      (!·.2.isEmpty)

end Catalog

-- A command being called: the line that calls it, the commands there are, and the time.
structure Call where
  line : CommandLine
  catalog : Catalog
  clock : Clock

def Call.name (call : Call) : String := call.line.name

-- How a call ends. A crash is an error of the command itself, caught by whoever called it.
inductive Ending
  | done (outcome : Outcome)
  | failed (failure : Failure)
  | crashed

structure Reply where
  scene : Scene
  ending : Ending

abbrev Handler := Call → Scene → Reply

def Scene.done (scene : Scene) (outcome : Outcome) : Reply := ⟨scene, .done outcome⟩

def Scene.fail (scene : Scene) (failure : Failure) : Reply := ⟨scene, .failed failure⟩

structure Command where
  manual : Manual
  handler : Handler

abbrev Registry := List Command

namespace Registry

def catalog (registry : Registry) : Catalog :=
  List.map Command.manual registry

-- The first command that answers to a word. The case of ASCII letters does not count.
def find? (registry : Registry) (word : String) : Option Command :=
  List.find? (·.manual.answersTo word) registry

end Registry

end DesktopShell

import DesktopShell.Shell.Command
import DesktopShell.Time.Rfc3339

-- Commands about the shell itself: `help`, `clear`, `echo`, `history`, `whoami`, `date` and
-- `ver`.
namespace DesktopShell.Inform

def describe (m : Manual) : List Line :=
  [.text ("Usage: " ++ m.usage), .text m.description] ++
    if m.aliases.isEmpty then [] else [.info ("Aliases: " ++ ", ".intercalate m.aliases)]

def overview (catalog : Catalog) : List Line :=
  (catalog.byCategory.flatMap fun (category, manuals) =>
    [.info (category.title ++ ":")] ++
      manuals.map (fun m => .text ("  " ++ Text.padRight 28 m.usage ++ " " ++ m.description)) ++
      [.empty]) ++
    [.text "Type 'help <command>' for details."]

def help : Handler := fun call scene =>
  match call.line.firstArg? with
  | some word =>
      match call.catalog.find? word with
      | some manual => scene.done (.ofLines (describe manual))
      | none => scene.fail (.unknownCommand word)
  | none => scene.done (.ofLines (overview call.catalog))

def clear : Handler := fun _ scene => scene.done .wipe

-- All words behind the command name, flags too.
def echo : Handler := fun call scene =>
  scene.done (.ofLine (.text (" ".intercalate call.line.tokens.tail)))

def history : Handler := fun _ scene =>
  let entries := scene.session.history.entries.toList
  scene.done (.ofLines (entries.zipIdx.map fun (line, i) =>
    .text (Text.padLeft 5 (Nat.repr (i + 1)) ++ "  " ++ line)))

def whoAmI : Handler := fun _ scene =>
  scene.done (.ofLine (.text scene.session.settings.user))

-- A date and time, as in `Thu 08/24/1995  00:00:00`.
def dateText (r : Reading) : String :=
  let days := ["Sun", "Mon", "Tue", "Wed", "Thu", "Fri", "Sat"]
  days.getD r.weekday "" ++ " " ++ Text.zeroPad 2 r.month ++ "/" ++ Text.zeroPad 2 r.day ++ "/" ++
    Rfc3339.yearText r.year ++ "  " ++ Text.zeroPad 2 r.hour ++ ":" ++
    Text.zeroPad 2 r.minute ++ ":" ++ Text.zeroPad 2 r.second

def date : Handler := fun call scene =>
  scene.done (.ofLine (.text (dateText call.clock.wall.val)))

def version : Handler := fun _ scene =>
  scene.done (.ofLines [.empty, .text "RetroOS [Version 0.1.0]", .empty])

end DesktopShell.Inform

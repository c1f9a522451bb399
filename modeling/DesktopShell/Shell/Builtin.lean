import DesktopShell.Shell.Alter
import DesktopShell.Shell.Browse
import DesktopShell.Shell.Inform
import DesktopShell.Shell.Launch
import DesktopShell.Shell.Mainframe

namespace DesktopShell.Registry

def changeFolder : Command where
  manual :=
    { name := "cd", aliases := ["chdir"], category := .navigation, usage := "cd [path]"
      description := "Change the current folder, or print it when no path is given"
      hidden := false }
  handler := Browse.changeFolder

def printFolder : Command where
  manual :=
    { name := "pwd", aliases := [], category := .navigation, usage := "pwd"
      description := "Print the current folder", hidden := false }
  handler := Browse.printFolder

def list : Command where
  manual :=
    { name := "ls", aliases := ["dir"], category := .navigation, usage := "ls [path]"
      description := "List folder contents", hidden := false }
  handler := Browse.list

def makeFolder : Command where
  manual :=
    { name := "mkdir", aliases := ["md"], category := .fileSystem, usage := "mkdir <name>"
      description := "Create a folder", hidden := false }
  handler := Alter.makeFolder

def makeFile : Command where
  manual :=
    { name := "touch", aliases := [], category := .fileSystem, usage := "touch <name>"
      description := "Create an empty file", hidden := false }
  handler := Alter.makeFile

def remove : Command where
  manual :=
    { name := "rm", aliases := ["del", "erase"], category := .fileSystem, usage := "rm <path>"
      description := "Delete a file or folder", hidden := false }
  handler := Alter.remove

def showText : Command where
  manual :=
    { name := "cat", aliases := ["type"], category := .fileSystem, usage := "cat <file>"
      description := "Show the contents of a text file", hidden := false }
  handler := Browse.showText

def run : Command where
  manual :=
    { name := "run", aliases := ["start", "open"], category := .applications
      usage := "run <program|file>", description := "Launch an application or open a file"
      hidden := false }
  handler := Launch.run

def hack : Command where
  manual :=
    { name := "hack", aliases := [], category := .easterEggs
      usage := "hack [cat <file> | run <program> | exit]"
      description := "Connect to the mainframe", hidden := false }
  handler := Mainframe.hack

def matrix : Command where
  manual :=
    { name := "matrix", aliases := [], category := .easterEggs, usage := "matrix [off]"
      description := "Follow the white rabbit", hidden := true }
  handler := Mainframe.matrix

def help : Command where
  manual :=
    { name := "help", aliases := ["?"], category := .system, usage := "help [command]"
      description := "List commands, or describe one command", hidden := false }
  handler := Inform.help

def clear : Command where
  manual :=
    { name := "clear", aliases := ["cls"], category := .system, usage := "clear"
      description := "Clear the screen", hidden := false }
  handler := Inform.clear

def echo : Command where
  manual :=
    { name := "echo", aliases := [], category := .system, usage := "echo [text]"
      description := "Print text", hidden := false }
  handler := Inform.echo

def history : Command where
  manual :=
    { name := "history", aliases := ["doskey"], category := .system, usage := "history"
      description := "Show previously entered commands", hidden := false }
  handler := Inform.history

def whoAmI : Command where
  manual :=
    { name := "whoami", aliases := [], category := .system, usage := "whoami"
      description := "Print the current user", hidden := false }
  handler := Inform.whoAmI

def date : Command where
  manual :=
    { name := "date", aliases := ["time"], category := .system, usage := "date"
      description := "Print the current date and time", hidden := false }
  handler := Inform.date

def version : Command where
  manual :=
    { name := "ver", aliases := ["version"], category := .system, usage := "ver"
      description := "Print the system version", hidden := false }
  handler := Inform.version

-- The commands that every shell has.
def builtin : Registry :=
  [ changeFolder, printFolder, list, makeFolder, makeFile, remove, showText, run, hack, matrix,
    help, clear, echo, history, whoAmI, date, version ]

end DesktopShell.Registry

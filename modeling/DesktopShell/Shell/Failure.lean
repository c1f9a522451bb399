namespace DesktopShell

-- Why a command did not do what was asked. `command` is the name it was called by.
inductive Failure
  | notFound (command target : String)
  | notADirectory (command target : String)
  | isADirectory (command target : String)
  | alreadyExists (command target : String)
  | permissionDenied (command target : String)
  | unsupportedFormat (command target : String)
  | invalidArgument (command message : String)
  | unknownCommand (word : String)
  | noWindowManager (command : String)
  | internal (command : String)
  deriving DecidableEq

namespace Failure

def missingOperand (command usage : String) : Failure :=
  .invalidArgument command ("missing operand (usage: " ++ usage ++ ")")

def message : Failure → String
  | .notFound command target => command ++ ": " ++ target ++ ": No such file or directory"
  | .notADirectory command target => command ++ ": " ++ target ++ ": Not a directory"
  | .isADirectory command target => command ++ ": " ++ target ++ ": Is a directory"
  | .alreadyExists command target => command ++ ": " ++ target ++ ": Already exists"
  | .permissionDenied command target => command ++ ": " ++ target ++ ": Access denied"
  | .unsupportedFormat command target => command ++ ": " ++ target ++ ": Unsupported file format"
  | .invalidArgument command message => command ++ ": " ++ message
  | .unknownCommand word =>
      "'" ++ word ++ "' is not recognized as an internal or external command. " ++
        "Type 'help' for available commands."
  | .noWindowManager command => command ++ ": no window manager available"
  | .internal command => command ++ ": command failed unexpectedly"

end Failure

end DesktopShell

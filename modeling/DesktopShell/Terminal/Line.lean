import DesktopShell.Text.Pad

namespace DesktopShell

-- How a listed item is drawn.
inductive Style
  | directory
  | file
  | executable
  deriving DecidableEq

-- A line of a transcript.
inductive Line
  | command (prompt input : String)
  | text (text : String)
  | error (text : String)
  | success (text : String)
  | info (text : String)
  | empty
  | entry (name description : String) (style : Style)
  deriving DecidableEq

namespace Line

-- The visible text. Descriptions stand in a column of eight characters.
def render : Line → String
  | .command prompt input => prompt ++ input
  | .text s | .error s | .success s | .info s => s
  | .empty => ""
  | .entry name description _ => Text.padRight 8 description ++ " " ++ name

def isError : Line → Bool
  | .error _ => true
  | _ => false

end Line

end DesktopShell

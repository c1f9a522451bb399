import DesktopShell.Drive.Item

namespace DesktopShell

-- The applications that a desktop can host.
inductive App
  | notepad
  | explorer
  | terminal
  | imageViewer
  | paint
  | minesweeper
  | snake
  | chat
  deriving DecidableEq

-- What a window shows when it opens. A notepad without a file starts a new one.
inductive Content
  | notepad (filePath fileName : Option String) (text : String) (readOnly : Bool)
  | explorer (path : String)
  | terminal (workingDir : String)
  | imageViewer (path name : String) (payload : Option Bytes)
  | paint
  | minesweeper (rows cols mines : Nat)
  | snake
  | chat (greeting : String)
  deriving DecidableEq

def Content.app : Content → App
  | .notepad .. => .notepad
  | .explorer .. => .explorer
  | .terminal .. => .terminal
  | .imageViewer .. => .imageViewer
  | .paint => .paint
  | .minesweeper .. => .minesweeper
  | .snake => .snake
  | .chat .. => .chat

-- Where a window opens and how large, in pixels.
structure Frame where
  x : Nat
  y : Nat
  width : Nat
  height : Nat
  deriving DecidableEq

structure Window where
  title : String
  app : App
  frame : Frame
  icon : String
  content : Content
  deriving DecidableEq

namespace App

-- The order in which names are looked up.
def all : List App :=
  [.notepad, .explorer, .terminal, .imageViewer, .paint, .minesweeper, .snake, .chat]

-- The name an application is started by.
def key : App → String
  | .notepad => "notepad"
  | .explorer => "explorer"
  | .terminal => "terminal"
  | .imageViewer => "imageviewer"
  | .paint => "paint"
  | .minesweeper => "minesweeper"
  | .snake => "snake"
  | .chat => "chat"

def aliases : App → List String
  | .notepad => ["edit", "text"]
  | .explorer => ["files", "mycomputer"]
  | .terminal => ["cmd", "command", "dos"]
  | .imageViewer => ["viewer", "pictures"]
  | .paint => ["mspaint", "pbrush"]
  | .minesweeper => ["winmine", "mines"]
  | .snake => ["nibbles"]
  | .chat => ["assistant", "clippy"]

def title : App → String
  | .notepad => "Notepad"
  | .explorer => "My Computer"
  | .terminal => "MS-DOS Prompt"
  | .imageViewer => "Image Viewer"
  | .paint => "Paint"
  | .minesweeper => "Minesweeper"
  | .snake => "Snake"
  | .chat => "Assistant"

def icon : App → String
  | .notepad => "notepad.ico"
  | .explorer => "computer.ico"
  | .terminal => "dos.ico"
  | .imageViewer => "image.ico"
  | .paint => "paint.ico"
  | .minesweeper => "mine.ico"
  | .snake => "snake.ico"
  | .chat => "assistant.ico"

def frame : App → Frame
  | .notepad => ⟨120, 80, 520, 380⟩
  | .explorer => ⟨80, 60, 640, 440⟩
  | .terminal => ⟨100, 100, 600, 400⟩
  | .imageViewer => ⟨140, 90, 480, 400⟩
  | .paint => ⟨60, 40, 700, 500⟩
  | .minesweeper => ⟨200, 120, 260, 330⟩
  | .snake => ⟨180, 110, 420, 460⟩
  | .chat => ⟨160, 70, 400, 520⟩

def answersTo (app : App) (name : String) : Bool :=
  Text.sameIgnoringAsciiCase app.key name ||
    app.aliases.any (Text.sameIgnoringAsciiCase · name)

-- The application that a key or an alias names.
def find? (name : String) : Option App :=
  all.find? (·.answersTo name)

-- What an application shows when it is started in a folder, without a document.
def defaultContent (app : App) (workingDir : String) : Content :=
  match app with
  | .notepad => .notepad none none "" false
  | .explorer => .explorer workingDir
  | .terminal => .terminal workingDir
  | .imageViewer => .imageViewer "" "" none
  | .paint => .paint
  | .minesweeper => .minesweeper 9 9 10
  | .snake => .snake
  | .chat => .chat "Hi! It looks like you're using a computer. Need help?"

-- A window of an application. A document puts its name in front of the title.
def window (app : App) (content : Content) : Window :=
  let title := match content with
    | .notepad _ (some name) _ _ => name ++ " - " ++ app.title
    | .imageViewer _ name _ => if name = "" then app.title else name ++ " - " ++ app.title
    | _ => app.title
  ⟨title, app, app.frame, app.icon, content⟩

end App

end DesktopShell

import DesktopShell.Drive.Store

namespace DesktopShell

-- How an item is guarded against deletion: not at all, for its owner, or as part of the system.
inductive Guard
  | free
  | owned
  | system

-- A plan of a tree: names and contents, without numbers and times.
inductive Layout
  | folder (name : String) (guard : Guard) (children : List Layout)
  | text (name : String) (guard : Guard) (content : String)
  | binary (name : String) (guard : Guard) (payload : Bytes)

namespace Layout

def guardedBy (guard : Guard) (x : Item) : Item :=
  match guard with
  | .free => x
  | .owned => x.guarded false
  | .system => x.guarded true

mutual

-- Build what is planned in a folder at `path`, and number it from `next` on, each folder
-- before what it contains.
def build (now : Moment) (path : String) (next : ItemId) : Layout → Item × ItemId
  | .folder name guard children =>
      let place := Path.join path name
      let (cs, after) := buildAll now place (next + 1) children
      (guardedBy guard (.withChildren cs (.folder ⟨next, now⟩ name place)), after)
  | .text name guard content =>
      (guardedBy guard (.textFile ⟨next, now⟩ name (Path.join path name) content), next + 1)
  | .binary name guard payload =>
      (guardedBy guard (.binaryFile ⟨next, now⟩ name (Path.join path name) payload), next + 1)

def buildAll (now : Moment) (path : String) (next : ItemId) : List Layout → List Item × ItemId
  | [] => ([], next)
  | l :: ls =>
      let (x, mid) := build now path next l
      let (xs, after) := buildAll now path mid ls
      (x :: xs, after)

end

-- A drive with a root folder and what is planned in it.
def drive (now : Moment) (next : ItemId) (children : List Layout) : Drive :=
  let (cs, after) := buildAll now "/" (next + 1) children
  .ofRoot ((Item.root ⟨next, now⟩).withChildren cs) after

end Layout

namespace Drive

def empty (now : Moment) (next : ItemId) : Drive :=
  Layout.drive now next []

-- Two pixels by two, black and white.
def wallpaper : Bytes :=
  [ 0x42, 0x4d, 0x46, 0x00, 0x00, 0x00, 0x00, 0x00, 0x00, 0x00, 0x3e, 0x00, 0x00, 0x00, 0x28,
    0x00, 0x00, 0x00, 0x02, 0x00, 0x00, 0x00, 0x02, 0x00, 0x00, 0x00, 0x01, 0x00, 0x01, 0x00,
    0x00, 0x00, 0x00, 0x00, 0x08, 0x00, 0x00, 0x00, 0x00, 0x00, 0x00, 0x00, 0x00, 0x00, 0x00,
    0x00, 0x00, 0x00, 0x00, 0x00, 0x00, 0x00, 0x00, 0x00, 0x00, 0x00, 0x00, 0x00, 0xff, 0xff,
    0xff, 0x00, 0x40, 0x00, 0x00, 0x00, 0x80, 0x00, 0x00, 0x00 ]

def readme : String :=
  "Welcome to RetroOS!\n" ++
  "\n" ++
  "Try these commands:\n" ++
  "dir            list the current folder\n" ++
  "cd Desktop     change folder\n" ++
  "type file.txt  show a text file\n" ++
  "start notepad  open an application\n" ++
  "\n" ++
  "Type 'help' for the full list."

def program (folder file app : String) : Layout :=
  .folder folder .system [.text file .system app]

-- The drive of a new session: the system, guarded, and a guest's folders, whose contents are
-- free to change.
def stockLayout : List Layout :=
  [ .folder "C:" .system
      [ .text "autoexec.bat" .system
          "@ECHO OFF\nPROMPT $P$G\nPATH C:\\Windows;C:\\Windows\\System32",
        .folder "Windows" .system
          [ .folder "System32" .system
              [ .text "config.sys" .system "FILES=40\nBUFFERS=20",
                .text "cmd.exe" .system "terminal" ],
            .text "notepad.exe" .system "notepad",
            .text "explorer.exe" .system "explorer",
            .text "mspaint.exe" .system "paint",
            .text "win.ini" .system "[windows]\nload=\nrun=" ],
        .folder "Program Files" .system
          [ program "Minesweeper" "winmine.exe" "minesweeper",
            program "Snake" "snake.exe" "snake",
            program "Assistant" "assistant.exe" "chat" ],
        .folder "Users" .system
          [ .folder "Guest" .owned
              [ .folder "Desktop" .owned [.text "readme.txt" .free readme],
                .folder "Documents" .owned
                  [.text "todo.txt" .free "- water the plants\n- back up floppies"],
                .folder "Pictures" .owned
                  [.binary "wallpaper.bmp" .free wallpaper] ] ] ] ]

def stock (now : Moment) (next : ItemId) : Drive :=
  Layout.drive now next stockLayout

end Drive

end DesktopShell

import DesktopShell.Text.Blank
import DesktopShell.Text.Split

-- A path is a text. What it means is its list of segments, the non-empty parts between
-- slashes, so `C:/Users` and `//C://Users/` are two spellings of one path.
namespace DesktopShell.Path

def segments (p : String) : List String :=
  ((Text.split '/' p.toList).filter (!·.isEmpty)).map String.ofList

-- The canonical spelling: one slash before each segment, and a lone slash for the root.
def render (parts : List String) : String :=
  "/" ++ "/".intercalate parts

def normalize (p : String) : String :=
  render (segments p)

def isRoot (p : String) : Bool :=
  (segments p).isEmpty

-- The root is its own parent.
def parent (p : String) : String :=
  render (segments p).dropLast

-- The last segment, empty for the root.
def fileName (p : String) : String :=
  (segments p).getLast?.getD ""

-- A name below a folder. Slashes at the folder's end do not count, slashes in the name stay.
def join (folder name : String) : String :=
  if folder = "/" ∨ folder = "" then "/" ++ name
  else String.ofList (Text.dropEnd (· = '/') folder.toList) ++ "/" ++ name

-- How the prompt spells a path: backslashes between segments, none in front. The root and a
-- drive end in one.
def display (p : String) : String :=
  match segments p with
  | [] => "\\"
  | [drive] => drive ++ "\\"
  | parts => "\\".intercalate parts

end DesktopShell.Path

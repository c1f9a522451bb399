import DesktopShell.Drive.Name
import DesktopShell.Path.Basic
import DesktopShell.Time.Moment

namespace DesktopShell

-- Items are told apart by number. The numbers are 64 bits wide and wrap.
abbrev ItemId := UInt64

abbrev Bytes := List UInt8

inductive Kind
  | folder
  | file
  deriving DecidableEq

-- All that an item is apart from what it contains. `path` is its place on the drive, kept
-- with it: on a well-formed drive the parent's path joined with the name.
structure Entry where
  id : ItemId
  name : String
  kind : Kind
  extension : Option String
  path : String
  content : Option String
  payload : Option Bytes
  isProtected : Bool
  isSystem : Bool
  created : Moment
  modified : Moment
  deriving DecidableEq

-- Folders carry a list of children, files carry none.
inductive Item
  | mk (entry : Entry) (children? : Option (List Item))

-- What a new item gets from outside: a number nobody else has, and the time.
structure Stamp where
  id : ItemId
  now : Moment

namespace Item

def entry : Item → Entry
  | mk e _ => e

def children? : Item → Option (List Item)
  | mk _ cs => cs

def children (x : Item) : List Item :=
  x.children?.getD []

abbrev id (x : Item) : ItemId := x.entry.id
abbrev name (x : Item) : String := x.entry.name
abbrev path (x : Item) : String := x.entry.path

def isFolder (x : Item) : Bool :=
  x.entry.kind = .folder

def folder (stamp : Stamp) (name path : String) : Item :=
  .mk
    { id := stamp.id, name, kind := .folder, extension := none, path, content := none
      payload := none, isProtected := false, isSystem := false
      created := stamp.now, modified := stamp.now }
    (some [])

def textFile (stamp : Stamp) (name path content : String) : Item :=
  .mk
    { id := stamp.id, name, kind := .file, extension := Drive.extensionOf? name, path
      content := some content, payload := none, isProtected := false, isSystem := false
      created := stamp.now, modified := stamp.now }
    none

def binaryFile (stamp : Stamp) (name path : String) (payload : Bytes) : Item :=
  .mk
    { id := stamp.id, name, kind := .file, extension := Drive.extensionOf? name, path
      content := none, payload := some payload, isProtected := false, isSystem := false
      created := stamp.now, modified := stamp.now }
    none

-- Guard an item against deletion, as part of the system or not.
def guarded (system : Bool) : Item → Item
  | mk e cs => mk { e with isProtected := true, isSystem := system } cs

def withChildren (cs : List Item) : Item → Item
  | mk e _ => mk e (some cs)

-- The folder that holds everything. It belongs to the system.
def root (stamp : Stamp) : Item :=
  (folder stamp "" "/").guarded true

-- The first child of a name. Nothing keeps a folder from having several.
def child? (x : Item) (name : String) : Option Item :=
  x.children.find? (·.name = name)

mutual

-- The item or something in it is protected.
def containsProtected : Item → Bool
  | mk e none => e.isProtected
  | mk e (some cs) => e.isProtected || anyProtected cs

def anyProtected : List Item → Bool
  | [] => false
  | x :: xs => containsProtected x || anyProtected xs

end

def isPlainText (x : Item) : Bool :=
  x.entry.extension = some "txt"

def isImage (x : Item) : Bool :=
  ["bmp", "png", "jpg", "jpeg", "gif"].any (x.entry.extension = some ·)

def isExecutable (x : Item) : Bool :=
  ["exe", "lnk"].any (x.entry.extension = some ·)

def stem? (x : Item) : Option String :=
  Drive.stem? x.name x.entry.extension

-- Bytes of the payload, else of the text.
def size (x : Item) : Nat :=
  match x.entry.payload, x.entry.content with
  | some bytes, _ => bytes.length
  | none, some text => Text.byteCount text.toList
  | none, none => 0

mutual

def count : Item → Nat
  | mk _ none => 1
  | mk _ (some cs) => 1 + countAll cs

def countAll : List Item → Nat
  | [] => 0
  | x :: xs => count x + countAll xs

end

theorem countAll_append (xs ys : List Item) : countAll (xs ++ ys) = countAll xs + countAll ys := by
  induction xs with
  | nil => simp [countAll]
  | cons x xs ih => simp [countAll, ih, Nat.add_assoc]

theorem countAll_reverse (xs : List Item) : countAll xs.reverse = countAll xs := by
  induction xs with
  | nil => rfl
  | cons x xs ih => simp [countAll_append, countAll, ih, Nat.add_comm]

theorem count_eq (x : Item) : count x = 1 + countAll x.children := by
  cases x with
  | mk e cs => cases cs <;> simp [count, countAll, children, children?]

-- The items still to be visited, the next one first. Visiting an item puts its children in
-- front of the rest.
def visit : List Item → List Item
  | [] => []
  | x :: rest => x :: visit (x.children ++ rest)
termination_by pending => countAll pending
decreasing_by
  simp only [countAll_append, countAll, count_eq]
  omega

-- The item and everything below it, depth first, each folder before what it contains.
def walk (x : Item) : List Item :=
  visit [x]

end Item

end DesktopShell

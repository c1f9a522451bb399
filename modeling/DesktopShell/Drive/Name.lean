import DesktopShell.Text.Bytes
import DesktopShell.Text.Lowercase
import DesktopShell.Text.Split

namespace DesktopShell.Drive

-- The extension of a file name: what follows its last dot, in lower case. A name that starts
-- or ends with its last dot has none.
def extensionOf? (name : String) : Option String :=
  match Text.splitLast? '.' name.toList with
  | some (before, after) =>
      if before = [] ∨ after = [] then none else some (Text.lowercase (String.ofList after))
  | none => none

-- A name without its extension. The cut is made by length: as many bytes come off the end as
-- the extension has, and one for the dot. A name too short for that stays whole. There is no
-- stem when the cut falls inside a character, which happens when lower-casing has changed the
-- length of the extension.
def stem? (name : String) (extension : Option String) : Option String :=
  match extension with
  | none => some name
  | some ext =>
      let size := Text.byteCount name.toList
      let cut := Text.byteCount ext.toList + 1
      if size < cut then some name
      else (Text.takeBytes (size - cut) name.toList).map String.ofList

end DesktopShell.Drive

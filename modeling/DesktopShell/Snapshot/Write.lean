import DesktopShell.Drive.Item
import DesktopShell.Json.Basic
import DesktopShell.Text.Base64
import DesktopShell.Time.Rfc3339

-- An item as a JSON object. A payload and children are only named when there are any, all else
-- always.
namespace DesktopShell

def Kind.name : Kind → String
  | .folder => "folder"
  | .file => "file"

namespace Json

def ofOption {α : Type} (write : α → Json) : Option α → Json
  | some x => write x
  | none => .null

def ofBytes (bytes : Bytes) : Json :=
  ofString (String.ofList (Text.Base64.encode bytes))

def ofMoment (m : Moment) : Json :=
  ofString (Rfc3339.render m)

end Json

def Entry.members (e : Entry) (children : List (String × Json)) : List (String × Json) :=
  [ ("id", .ofNat e.id.toNat),
    ("name", .ofString e.name),
    ("kind", .ofString e.kind.name),
    ("extension", .ofOption .ofString e.extension),
    ("path", .ofString e.path),
    ("content", .ofOption .ofString e.content) ] ++
  (e.payload.map fun bytes => ("payload", Json.ofBytes bytes)).toList ++
  children ++
  [ ("isProtected", .bool e.isProtected),
    ("isSystem", .bool e.isSystem),
    ("createdAt", .ofMoment e.created),
    ("modifiedAt", .ofMoment e.modified) ]

namespace Item

mutual

def toJson : Item → Json
  | .mk e none => .ofMembers (e.members [])
  | .mk e (some cs) => .ofMembers (e.members [("children", .array (listToJson cs))])

def listToJson : List Item → List Json
  | [] => []
  | x :: xs => x.toJson :: listToJson xs

end

end Item

end DesktopShell

import DesktopShell.Snapshot.Write

namespace DesktopShell

namespace Json

def text? : Json → Option String
  | .string text? => text?
  | _ => none

def bool? : Json → Option Bool
  | .bool b => some b
  | _ => none

-- A number below 2^64 in plain digits.
def id? : Json → Option ItemId
  | .number digits => do
      let n ← Text.number? 10 digits.toList
      if n < UInt64.size then some (.ofNat n) else none
  | _ => none

def bytes? (v : Json) : Option Bytes := do
  Text.Base64.decode? (← v.text?).toList

def moment? (v : Json) : Option Moment := do
  Rfc3339.parse? (← v.text?)

end Json

namespace Snapshot

-- The names of an item's fields, in the order in which they are written.
def fieldNames : List String :=
  [ "id", "name", "kind", "extension", "path", "content", "payload", "children", "isProtected",
    "isSystem", "createdAt", "modifiedAt" ]

-- The fields of an item by name: an object's members, or the items of an array, which has to
-- have them all. Members of other names are passed over, a name given twice is an error.
def fields? : Json → Option (List (String × Json))
  | .object members => do
      let named ← members.mapM fun (key, v) => key.map (·, v)
      let known := named.filter (fieldNames.contains ·.1)
      if (known.map Prod.fst).Nodup then some known else none
  | .array items =>
      if items.length = fieldNames.length then some (fieldNames.zip items) else none
  | _ => none

variable {α : Type}

def required? (fields : List (String × Json)) (name : String) (read : Json → Option α) : Option α :=
  (fields.lookup name).bind read

-- A field that is missing or null has no value, which is not an error.
def optional? (fields : List (String × Json)) (name : String) (read : Json → Option α) :
    Option (Option α) :=
  match fields.lookup name with
  | none | some .null => some none
  | some v => (read v).map some

-- A kind is given by its name, or by an object with that name as its only key, if there is
-- room for one.
def kind? (room : Nat) (v : Json) : Option Kind := do
  let name ← match room, v with
    | _, .string name? => name?
    | _ + 1, .object [(some name, .null)] => some name
    | _, _ => none
  if name = "folder" then some .folder else if name = "file" then some .file else none

def entry? (room : Nat) (fields : List (String × Json)) : Option Entry := do
  return {
    id := ← required? fields "id" Json.id?
    name := ← required? fields "name" Json.text?
    kind := ← required? fields "kind" (kind? room)
    extension := ← optional? fields "extension" Json.text?
    path := ← required? fields "path" Json.text?
    content := ← optional? fields "content" Json.text?
    payload := ← optional? fields "payload" Json.bytes?
    isProtected := ← required? fields "isProtected" Json.bool?
    isSystem := ← required? fields "isSystem" Json.bool?
    created := ← required? fields "createdAt" Json.moment?
    modified := ← required? fields "modifiedAt" Json.moment? }

mutual

-- The item that a value describes. `room` is how many objects and arrays may lie in each
-- other, this one included.
def item? : Nat → Json → Option Item
  | 0, _ => none
  | room + 1, v => do
      let fields ← fields? v
      let entry ← entry? room fields
      let children? ← optional? fields "children" (items? room)
      return .mk entry children?

def items? : Nat → Json → Option (List Item)
  | room + 1, .array items => items.mapM (item? room)
  | _, _ => none

end

-- How deep a snapshot may be nested.
def maxNesting : Nat := 127

end Snapshot

end DesktopShell

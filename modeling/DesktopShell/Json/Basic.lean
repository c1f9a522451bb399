namespace DesktopShell

-- A JSON value. Numbers are kept as they are spelled. Escapes can spell texts that no string
-- can hold, with one half of a surrogate pair; they and keys like them have no value, which
-- is no matter as long as nothing asks for it.
inductive Json
  | null
  | bool (value : Bool)
  | number (digits : String)
  | string (text? : Option String)
  | array (items : List Json)
  | object (members : List (Option String × Json))

namespace Json

def ofString (s : String) : Json := .string (some s)

def ofNat (n : Nat) : Json := .number (Nat.repr n)

def ofMembers (members : List (String × Json)) : Json :=
  .object (members.map fun (key, value) => (some key, value))

end Json

end DesktopShell

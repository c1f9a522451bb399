import DesktopShell.Json.Token

namespace DesktopShell.Json

-- A collection whose next element is being read, with the elements before it, the last one
-- first.
inductive Frame
  | item (before : List Json)
  | member (before : List (Option String × Json)) (key : Option String)

-- What has been read of a value, and what comes next: a value, the first item of an array or
-- its end, the first key of an object or its end, a key, a colon, or nothing more of this
-- value. The collections it lies in are stacked up, the innermost first.
inductive Progress
  | value (stack : List Frame)
  | firstItem (stack : List Frame)
  | firstKey (stack : List Frame)
  | key (before : List (Option String × Json)) (stack : List Frame)
  | colon (before : List (Option String × Json)) (key : Option String) (stack : List Frame)
  | done (value : Json) (stack : List Frame)

def begin? (stack : List Frame) : Token → Option Progress
  | .null => some (.done .null stack)
  | .bool b => some (.done (.bool b) stack)
  | .number digits => some (.done (.number digits) stack)
  | .string text? => some (.done (.string text?) stack)
  | .openArray => some (.firstItem stack)
  | .openObject => some (.firstKey stack)
  | _ => none

def step? : Progress → Token → Option Progress
  | .value stack, t => begin? stack t
  | .firstItem stack, .closeArray => some (.done (.array []) stack)
  | .firstItem stack, t => begin? (.item [] :: stack) t
  | .firstKey stack, .closeObject => some (.done (.object []) stack)
  | .firstKey stack, .string key => some (.colon [] key stack)
  | .key before stack, .string key => some (.colon before key stack)
  | .colon before key stack, .colon => some (.value (.member before key :: stack))
  | .done v (.item before :: stack), .comma => some (.value (.item (v :: before) :: stack))
  | .done v (.item before :: stack), .closeArray =>
      some (.done (.array (v :: before).reverse) stack)
  | .done v (.member before key :: stack), .comma => some (.key ((key, v) :: before) stack)
  | .done v (.member before key :: stack), .closeObject =>
      some (.done (.object ((key, v) :: before).reverse) stack)
  | _, _ => none

def ofTokens? (tokens : List Token) : Option Json :=
  match tokens.foldlM step? (.value []) with
  | some (.done v []) => some v
  | _ => none

-- The value that a text spells. There may be blanks around it and nothing else.
def parse? (text : String) : Option Json :=
  (tokens? text.toList).bind ofTokens?

end DesktopShell.Json

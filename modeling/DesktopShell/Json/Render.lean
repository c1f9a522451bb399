import DesktopShell.Json.Token

namespace DesktopShell.Json

mutual

def tokens : Json → List Token
  | .null => [.null]
  | .bool b => [.bool b]
  | .number digits => [.number digits]
  | .string text? => [.string text?]
  | .array items => .openArray :: (itemTokens items ++ [.closeArray])
  | .object members => .openObject :: (memberTokens members ++ [.closeObject])

def itemTokens : List Json → List Token
  | [] => []
  | x :: xs => tokens x ++ moreItemTokens xs

def moreItemTokens : List Json → List Token
  | [] => []
  | x :: xs => .comma :: (tokens x ++ moreItemTokens xs)

def memberTokens : List (Option String × Json) → List Token
  | [] => []
  | (key, x) :: rest => .string key :: .colon :: (tokens x ++ moreMemberTokens rest)

def moreMemberTokens : List (Option String × Json) → List Token
  | [] => []
  | (key, x) :: rest => .comma :: .string key :: .colon :: (tokens x ++ moreMemberTokens rest)

end

def hexDigit (n : Nat) : Char := "0123456789abcdef".toList.getD n '0'

-- Only what has to be escaped is, with a letter where there is one.
def escape (c : Char) : List Char :=
  match c with
  | '"' => ['\\', '"']
  | '\\' => ['\\', '\\']
  | '\x08' => ['\\', 'b']
  | '\x0c' => ['\\', 'f']
  | '\n' => ['\\', 'n']
  | '\r' => ['\\', 'r']
  | '\t' => ['\\', 't']
  | c =>
      if c.toNat < 0x20 then
        ['\\', 'u', '0', '0', hexDigit (c.toNat / 16), hexDigit (c.toNat % 16)]
      else [c]

def Token.chars : Token → List Char
  | .openObject => ['{']
  | .closeObject => ['}']
  | .openArray => ['[']
  | .closeArray => [']']
  | .colon => [':']
  | .comma => [',']
  | .null => "null".toList
  | .bool true => "true".toList
  | .bool false => "false".toList
  | .number digits => digits.toList
  | .string text? => '"' :: ((text?.getD "").toList.flatMap escape ++ ['"'])

-- A value on one line, without any blanks.
def render (v : Json) : String :=
  String.ofList (v.tokens.flatMap Token.chars)

end DesktopShell.Json

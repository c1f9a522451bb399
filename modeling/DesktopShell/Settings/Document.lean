import DesktopShell.Text.Digits
import DesktopShell.Text.Split

-- The text of a settings file, a TOML document that has no tables and no values but strings
-- and integers: one `key = value` to a line, with blanks, empty lines and comments in between.
namespace DesktopShell.Settings.Document

inductive Value
  | text (s : String)
  | integer (n : Int)
  deriving DecidableEq

-- Lines end in a line feed, with or without a carriage return in front. A carriage return
-- that stays is no legal character anywhere.
def joinLineEnds : List Char → List Char
  | '\r' :: '\n' :: cs => '\n' :: joinLineEnds cs
  | c :: cs => c :: joinLineEnds cs
  | [] => []

def isSpace (c : Char) : Bool := c == ' ' || c == '\t'

def skipSpaces (cs : List Char) : List Char := cs.dropWhile isSpace

-- What may stand in comments and strings: no control characters but the tab.
def isPrintable (c : Char) : Bool :=
  c == '\t' || (0x20 ≤ c.toNat && c.toNat != 0x7F)

-- Nothing but blanks and a comment up to the end of the line. The line feed itself stays.
def lineEnd? (cs : List Char) : Option (List Char) :=
  let rest := match skipSpaces cs with
    | '#' :: comment => comment.dropWhile isPrintable
    | rest => rest
  match rest with
  | [] | '\n' :: _ => some rest
  | _ => none

def character? (digits : List Char) : Option Char := do
  let n ← Text.number? 16 digits
  if n.isValidChar then some (Char.ofNat n) else none

def escaped? (c : Char) : Option Char :=
  match c with
  | '"' => some '"'
  | '\\' => some '\\'
  | 'b' => some '\x08'
  | 'f' => some '\x0c'
  | 'n' => some '\n'
  | 'r' => some '\r'
  | 't' => some '\t'
  | _ => none

-- Put a character in front of what has been read behind it.
def before (c : Char) (more : Option (List Char × List Char)) : Option (List Char × List Char) :=
  more.map fun (text, rest) => (c :: text, rest)

-- A string between double quotes: its text, and the input behind the closing quote.
def basic? : List Char → Option (List Char × List Char)
  | [] => none
  | '"' :: cs => some ([], cs)
  | '\\' :: 'u' :: a :: b :: c :: d :: cs => do
      before (← character? [a, b, c, d]) (basic? cs)
  | '\\' :: 'U' :: a :: b :: c :: d :: e :: f :: g :: h :: cs => do
      before (← character? [a, b, c, d, e, f, g, h]) (basic? cs)
  | '\\' :: c :: cs => do before (← escaped? c) (basic? cs)
  | c :: cs => if isPrintable c then before c (basic? cs) else none

-- A backslash at the end of a line takes out the line end and all blanks behind it. Before
-- the line end there may be blanks too.
inductive Fold
  | off
  | lineEnd
  | blanks

-- Three quotes close a string of several lines. One or two more belong to it.
def closing (mark : Char) (cs : List Char) : List Char × List Char :=
  let more := (cs.take 2).takeWhile (· = mark)
  (more, cs.drop more.length)

-- A string between three double quotes, which may run over several lines.
def multilineBasic? : Fold → List Char → Option (List Char × List Char)
  | _, [] => none
  | .lineEnd, c :: cs =>
      if isSpace c then multilineBasic? .lineEnd cs
      else if c = '\n' then multilineBasic? .blanks cs
      else none
  | _, '"' :: '"' :: '"' :: cs => some (closing '"' cs)
  | _, '\\' :: 'u' :: a :: b :: c :: d :: cs => do
      before (← character? [a, b, c, d]) (multilineBasic? .off cs)
  | _, '\\' :: 'U' :: a :: b :: c :: d :: e :: f :: g :: h :: cs => do
      before (← character? [a, b, c, d, e, f, g, h]) (multilineBasic? .off cs)
  | _, '\\' :: c :: cs =>
      if isSpace c then multilineBasic? .lineEnd cs
      else if c = '\n' then multilineBasic? .blanks cs
      else do before (← escaped? c) (multilineBasic? .off cs)
  | .blanks, c :: cs =>
      if isSpace c || c == '\n' then multilineBasic? .blanks cs
      else if isPrintable c then before c (multilineBasic? .off cs)
      else none
  | .off, c :: cs =>
      if isPrintable c || c == '\n' then before c (multilineBasic? .off cs) else none

-- A string between single quotes, in which no character has to be escaped and none can be.
def literal? : List Char → Option (List Char × List Char)
  | [] => none
  | '\'' :: cs => some ([], cs)
  | c :: cs => if isPrintable c then before c (literal? cs) else none

def multilineLiteral? : List Char → Option (List Char × List Char)
  | [] => none
  | '\'' :: '\'' :: '\'' :: cs => some (closing '\'' cs)
  | c :: cs => if isPrintable c || c == '\n' then before c (multilineLiteral? cs) else none

-- A line end right behind the opening quotes does not count.
def dropLineEnd : List Char → List Char
  | '\n' :: cs => cs
  | cs => cs

def isNumberChar (c : Char) : Bool :=
  c.isAlphanum || c == '_' || c == '+' || c == '-' || c == '.' || c == ':'

-- Digits with single underscores between them.
def digits? (base : Nat) (cs : List Char) : Option Nat :=
  let parts := Text.split '_' cs
  if parts.any List.isEmpty then none else Text.number? base parts.flatten

def decimal? (cs : List Char) : Option Nat :=
  if cs.head? = some '0' ∧ cs ≠ ['0'] then none else digits? 10 cs

-- Integers have 64 bits with the sign. Only decimal ones may have one.
def integer? (cs : List Char) : Option Int := do
  let n : Int ← match cs with
    | '0' :: 'x' :: digits => (digits? 16 digits).map Int.ofNat
    | '0' :: 'o' :: digits => (digits? 8 digits).map Int.ofNat
    | '0' :: 'b' :: digits => (digits? 2 digits).map Int.ofNat
    | '+' :: digits => (decimal? digits).map Int.ofNat
    | '-' :: digits => (decimal? digits).map fun n => -(n : Int)
    | digits => (decimal? digits).map Int.ofNat
  if -9223372036854775808 ≤ n ∧ n < 9223372036854775808 then some n else none

def value? (cs : List Char) : Option (Value × List Char) :=
  let text (found : List Char × List Char) := (Value.text (String.ofList found.1), found.2)
  match cs with
  | '"' :: '"' :: '"' :: cs => (multilineBasic? .off (dropLineEnd cs)).map text
  | '"' :: cs => (basic? cs).map text
  | '\'' :: '\'' :: '\'' :: cs => (multilineLiteral? (dropLineEnd cs)).map text
  | '\'' :: cs => (literal? cs).map text
  | cs => (integer? (cs.takeWhile isNumberChar)).map fun n =>
      (.integer n, cs.dropWhile isNumberChar)

def isKeyChar (c : Char) : Bool := c.isAlphanum || c == '_' || c == '-'

def key? (cs : List Char) : Option (List Char × List Char) :=
  match cs with
  | '"' :: cs => basic? cs
  | '\'' :: cs => literal? cs
  | cs =>
      let key := cs.takeWhile isKeyChar
      if key = [] then none else some (key, cs.dropWhile isKeyChar)

-- A key, an equals sign and a value, with blanks between them, up to the end of the line.
def assignment? (cs : List Char) : Option ((String × Value) × List Char) := do
  let (key, cs) ← key? cs
  match skipSpaces cs with
  | '=' :: cs =>
      let (value, cs) ← value? (skipSpaces cs)
      let cs ← lineEnd? cs
      return ((String.ofList key, value), cs)
  | _ => none

-- The assignments of the lines at the start, as many as the first argument allows.
def assignments? : Nat → List Char → Option (List (String × Value))
  | 0, _ => none
  | n + 1, cs =>
      match skipSpaces cs with
      | [] => some []
      | '\n' :: cs => assignments? n cs
      | '#' :: cs => do assignments? n (← lineEnd? ('#' :: cs))
      | cs => do
          let (first, cs) ← assignment? cs
          return first :: (← assignments? n cs)

-- The assignments of a document in their order. A byte order mark may stand in front. Every
-- step takes a character at least, so there are enough of them.
def parse? (document : String) : Option (List (String × Value)) :=
  let cs := match document.toList with
    | '\uFEFF' :: cs => cs
    | cs => cs
  let cs := joinLineEnds cs
  assignments? (cs.length + 1) cs

end DesktopShell.Settings.Document

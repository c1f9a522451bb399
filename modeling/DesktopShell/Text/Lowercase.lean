import DesktopShell.Text.Letters
import DesktopShell.Text.Lowercase.Table

namespace DesktopShell.Text

def CaseRun.covers (r : CaseRun) (n : Nat) : Bool :=
  r.first ≤ n && n ≤ r.last && (n - r.first) % r.step == 0

def lowerCode (n : Nat) : Nat :=
  match caseRuns.find? (·.covers n) with
  | some r => (n + r.shift).toNat
  | none => n

-- The lower case of one character by itself. Only the dotted capital I has two.
def lowerChar (c : Char) : List Char :=
  if c.toNat < 0x80 then [c.toLower]
  else if c = '\u0130' then ['i', '\u0307']
  else [Char.ofNat (lowerCode c.toNat)]

-- The first character that is not case-ignorable is a cased one.
def meetsLetter (cs : List Char) : Bool :=
  match cs.find? (!isCaseIgnorable ·) with
  | some c => isCased c
  | none => false

-- Lower case in context; `before` holds the characters to the left, nearest first. A sigma
-- that ends its word, with a letter before it and none behind, takes its final form.
def lowerFrom (before : List Char) : List Char → List Char
  | [] => []
  | c :: rest =>
      (if c = 'Σ' then
        if meetsLetter before && !meetsLetter rest then ['ς'] else ['σ']
      else lowerChar c) ++ lowerFrom (c :: before) rest

-- The full Unicode lower case of a text.
def lowercase (s : String) : String :=
  String.ofList (lowerFrom [] s.toList)

-- Equality that ignores the case of the letters A to Z, and of no others.
def sameIgnoringAsciiCase (a b : String) : Bool :=
  a.toList.map Char.toLower == b.toList.map Char.toLower

end DesktopShell.Text

import DesktopShell.Time.Moment
import DesktopShell.Text.Blank
import DesktopShell.Text.Digits
import DesktopShell.Text.Pad

-- Time stamps as text, `1995-08-24T00:00:00.5Z`. Written stamps are in universal time, read
-- ones may be in any zone and leave room for blanks between their parts.
namespace DesktopShell.Rfc3339

def yearText (year : Int) : String :=
  if 0 ≤ year ∧ year ≤ 9999 then Text.zeroPad 4 year.toNat
  else (if year < 0 then "-" else "+") ++ Text.zeroPad 4 year.natAbs

-- No fraction, or the fewest of 3, 6 and 9 digits that say it all.
def fractionText (nano : Nat) : String :=
  if nano = 0 then ""
  else if nano % 1000000 = 0 then "." ++ Text.zeroPad 3 (nano / 1000000)
  else if nano % 1000 = 0 then "." ++ Text.zeroPad 6 (nano / 1000)
  else "." ++ Text.zeroPad 9 nano

-- A leap second is written as second 60.
def render (m : Moment) : String :=
  let r := m.val
  let (second, nano) :=
    if r.nano < 1000000000 then (r.second, r.nano) else (r.second + 1, r.nano - 1000000000)
  yearText r.year ++ "-" ++ Text.zeroPad 2 r.month ++ "-" ++ Text.zeroPad 2 r.day ++ "T" ++
    Text.zeroPad 2 r.hour ++ ":" ++ Text.zeroPad 2 r.minute ++ ":" ++ Text.zeroPad 2 second ++
    fractionText nano ++ "Z"

def skipBlanks (cs : List Char) : List Char := cs.dropWhile Text.isBlank

-- The digits at the start, at most `width` of them and at least one.
def number? (width : Nat) (cs : List Char) : Option (Nat × List Char) :=
  let digits := (cs.take width).takeWhile Char.isDigit
  (Text.number? 10 digits).map (·, cs.drop digits.length)

def field? (width : Nat) (cs : List Char) : Option (Nat × List Char) :=
  number? width (skipBlanks cs)

-- A year with a sign may have any number of digits, one without has four at most.
def year? (cs : List Char) : Option (Int × List Char) :=
  match skipBlanks cs with
  | '-' :: rest => (number? rest.length rest).map fun (n, more) => (-(n : Int), more)
  | '+' :: rest => (number? rest.length rest).map fun (n, more) => ((n : Int), more)
  | rest => (number? 4 rest).map fun (n, more) => ((n : Int), more)

def literal? (c : Char) (cs : List Char) : Option (List Char) :=
  match skipBlanks cs with
  | d :: rest => if c = d then some rest else none
  | [] => none

def separator? : List Char → Option (List Char)
  | c :: rest => if c = 'T' ∨ c = 't' ∨ c = ' ' then some rest else none
  | [] => none

-- Digits behind the ninth are read and forgotten.
def fraction? : List Char → Option (Nat × List Char)
  | '.' :: rest => do
      let (n, more) ← number? 9 rest
      let used := rest.length - more.length
      return (n * Nat.pow 10 (9 - used), more.dropWhile Char.isDigit)
  | cs => some (0, cs)

def twoDigits? : List Char → Option (Nat × List Char)
  | a :: b :: rest => (Text.number? 10 [a, b]).map (·, rest)
  | _ => none

-- Minutes east of Greenwich.
def offset? (cs : List Char) : Option (Int × List Char) :=
  match skipBlanks cs with
  | c :: rest =>
      if c = 'Z' ∨ c = 'z' then some (0, rest)
      else if (c :: rest).length ≥ 3 ∧
          ((c :: rest).take 3).map Char.toLower = ['u', 't', 'c'] then some (0, rest.drop 2)
      else do
        let sign : Int ← if c = '+' then some 1 else if c = '-' ∨ c = '−' then some (-1) else none
        let (hours, rest) ← twoDigits? rest
        let (minutes, rest) ← twoDigits? (rest.dropWhile fun c => c = ':' || Text.isBlank c)
        if minutes < 60 then return (sign * (hours * 60 + minutes), rest) else none
  | [] => none

-- The moment a stamp names. Second 60 is the leap second at the end of any minute.
def parse? (text : String) : Option Moment := do
  let (year, cs) ← year? text.toList
  let cs ← literal? '-' cs
  let (month, cs) ← field? 2 cs
  let cs ← literal? '-' cs
  let (day, cs) ← field? 2 cs
  let cs ← separator? cs
  let (hour, cs) ← field? 2 cs
  let cs ← literal? ':' cs
  let (minute, cs) ← field? 2 cs
  let cs ← literal? ':' cs
  let (second, cs) ← field? 2 cs
  let (nano, cs) ← fraction? cs
  let (offset, cs) ← offset? cs
  if !(skipBlanks cs).isEmpty || 1440 ≤ offset.natAbs then none
  else
    let (second, nano) := if second = 60 then (59, nano + 1000000000) else (second, nano)
    let reading ← Moment.ofReading? ⟨year, month, day, hour, minute, second, nano⟩
    Moment.ofReading? (reading.val.addMinutes (-offset))

end DesktopShell.Rfc3339

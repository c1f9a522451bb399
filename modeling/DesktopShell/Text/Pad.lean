namespace DesktopShell.Text

-- Widths count characters. A text that is wide enough already stays as it is.
def padLeft (width : Nat) (s : String) : String :=
  String.ofList (List.replicate (width - s.length) ' ') ++ s

def padRight (width : Nat) (s : String) : String :=
  s ++ String.ofList (List.replicate (width - s.length) ' ')

-- Decimal digits, filled up with zeros from the left.
def zeroPad (width n : Nat) : String :=
  let digits := Nat.repr n
  String.ofList (List.replicate (width - digits.length) '0') ++ digits

end DesktopShell.Text

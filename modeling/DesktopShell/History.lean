import DesktopShell.Ring
import DesktopShell.Text.Blank

namespace DesktopShell

-- The lines submitted last, and the one among them that is being recalled, if any.
structure History where
  entries : Ring String
  cursor : Option Nat

namespace History

def make (capacity : Nat) (h : 0 < capacity) : History :=
  ⟨.make capacity h, none⟩

def make? (width : Nat) (grants : Nat → Bool) (capacity : Nat) : Except Ring.Refusal History := do
  return ⟨← Ring.make? width grants capacity, none⟩

-- A blank line is not kept. Every line ends the recall.
def record (h : History) (line : String) : History :=
  { entries := if Text.allBlank line then h.entries else (h.entries.push line).2
    cursor := none }

-- One line back, from the oldest around to the newest.
def recallPrevious (h : History) : Option String × History :=
  if h.entries.size = 0 then (none, h)
  else
    let i := match h.cursor with
      | none | some 0 => h.entries.size - 1
      | some (i + 1) => i
    (h.entries.get? i, { h with cursor := some i })

-- One line forward. Behind the newest line is an empty one, where the recall ends.
def recallNext (h : History) : String × History :=
  match h.cursor with
  | some i =>
      if i + 1 < h.entries.size then
        ((h.entries.get? (i + 1)).getD "", { h with cursor := some (i + 1) })
      else ("", { h with cursor := none })
  | none => ("", { h with cursor := none })

def resetCursor (h : History) : History :=
  { h with cursor := none }

end History

end DesktopShell

namespace DesktopShell

-- A reading of the calendar and the clock in universal time. A leap second is a nanosecond
-- count past the billion in the last second of a minute.
structure Reading where
  year : Int
  month : Nat
  day : Nat
  hour : Nat
  minute : Nat
  second : Nat
  nano : Nat
  deriving DecidableEq

namespace Reading

def isLeap (year : Int) : Bool :=
  year % 4 == 0 && (year % 100 != 0 || year % 400 == 0)

def daysIn (year : Int) (month : Nat) : Nat :=
  match month with
  | 4 | 6 | 9 | 11 => 30
  | 2 => if isLeap year then 29 else 28
  | _ => 31

-- Years run over the range of a signed 19-bit number, less its two ends.
def Valid (r : Reading) : Prop :=
  -262143 ≤ r.year ∧ r.year ≤ 262142 ∧ 1 ≤ r.month ∧ r.month ≤ 12 ∧
    1 ≤ r.day ∧ r.day ≤ daysIn r.year r.month ∧ r.hour < 24 ∧ r.minute < 60 ∧ r.second < 60 ∧
    (r.nano < 1000000000 ∨ r.second = 59 ∧ r.nano < 2000000000)

instance (r : Reading) : Decidable r.Valid := by
  unfold Valid
  infer_instance

def nextDay (r : Reading) : Reading :=
  if r.day < daysIn r.year r.month then { r with day := r.day + 1 }
  else if r.month < 12 then { r with month := r.month + 1, day := 1 }
  else { r with year := r.year + 1, month := 1, day := 1 }

def previousDay (r : Reading) : Reading :=
  if 1 < r.day then { r with day := r.day - 1 }
  else if 1 < r.month then { r with month := r.month - 1, day := daysIn r.year (r.month - 1) }
  else { r with year := r.year - 1, month := 12, day := 31 }

-- The reading so many minutes later, for less than a day either way.
def addMinutes (r : Reading) (minutes : Int) : Reading :=
  let total := (r.hour * 60 + r.minute : Int) + minutes
  let day := if total < 0 then r.previousDay else if total < 1440 then r else r.nextDay
  let ofDay := (total % 1440).toNat
  { day with hour := ofDay / 60, minute := ofDay % 60 }

-- Sunday is 0. The days of the months before this one are counted in a year from March on.
def weekday (r : Reading) : Nat :=
  let y := if r.month < 3 then r.year - 1 else r.year
  let shift := match r.month with
    | 1 => 0 | 2 => 3 | 3 => 2 | 4 => 5 | 5 => 0 | 6 => 3
    | 7 => 5 | 8 => 1 | 9 => 4 | 10 => 6 | 11 => 2 | _ => 4
  ((y + y / 4 - y / 100 + y / 400 + shift + r.day) % 7).toNat

end Reading

abbrev Moment := { r : Reading // r.Valid }

def Moment.ofReading? (r : Reading) : Option Moment :=
  if h : r.Valid then some ⟨r, h⟩ else none

def Moment.epoch : Moment := ⟨⟨1970, 1, 1, 0, 0, 0, 0⟩, by decide⟩

-- What the clock shows: the instant itself, and the date and time on the wall.
structure Clock where
  now : Moment
  wall : Moment

end DesktopShell

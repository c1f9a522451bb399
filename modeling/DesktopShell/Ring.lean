namespace DesktopShell

-- The newest `capacity` elements of a sequence. Until the ring is full they are stored in the
-- order they came; from then on each new one takes the place of the oldest, which `start`
-- points at.
structure Ring (α : Type) where
  capacity : Nat
  items : Array α
  start : Nat
  start_lt : start < capacity
  size_le : items.size ≤ capacity
  start_of_lt : items.size < capacity → start = 0

namespace Ring

-- No block of memory has more bytes.
def largestBlock : Nat := 0x7fffffffffffffff

-- Why there is no ring: it would have no place at all, more places than a block of memory can
-- have, or a block that is not to be had.
inductive Refusal
  | noCapacity
  | overflow
  | denied
  deriving DecidableEq

variable {α : Type}

def make (capacity : Nat) (h : 0 < capacity) : Ring α :=
  ⟨capacity, #[], 0, h, Nat.zero_le _, fun _ => rfl⟩

-- All the places of a ring, `width` bytes each, are taken from memory before anything is stored.
-- A ring of capacity zero could not hold the element just pushed, so there is none.
def make? (width : Nat) (grants : Nat → Bool) (capacity : Nat) : Except Refusal (Ring α) :=
  if h : 0 < capacity then
    if largestBlock < capacity * width then .error .overflow
    else if grants (capacity * width) then .ok (make capacity h)
    else .error .denied
  else .error .noCapacity

def size (r : Ring α) : Nat := r.items.size

-- Where the element with logical index `i` is stored. Index 0 is the oldest.
def slot (r : Ring α) (i : Nat) : Nat := (r.start + i) % r.capacity

theorem slot_lt (r : Ring α) (i : Nat) (h : i < r.size) : r.slot i < r.items.size := by
  have hs := r.start_lt
  have hl := r.size_le
  simp only [slot, size] at *
  by_cases hf : r.items.size < r.capacity
  · have := r.start_of_lt hf
    rw [this, Nat.zero_add, Nat.mod_eq_of_lt (by omega)]
    exact h
  · have : r.items.size = r.capacity := by omega
    rw [this]
    exact Nat.mod_lt _ (by omega)

def get? (r : Ring α) (i : Nat) : Option α :=
  if h : i < r.size then
    have := r.slot_lt i h
    some r.items[r.slot i]
  else none

-- Add an element at the new end. A full ring gives up its oldest element for it.
def push (r : Ring α) (x : α) : Option α × Ring α :=
  if h : r.items.size < r.capacity then
    (none,
      { r with
        items := r.items.push x
        size_le := by simp only [Array.size_push]; omega
        start_of_lt := fun _ => r.start_of_lt h })
  else
    have hs : r.start < r.items.size := by have := r.start_lt; omega
    (some r.items[r.start],
      { r with
        items := r.items.set r.start x hs
        start := (r.start + 1) % r.capacity
        start_lt := Nat.mod_lt _ (by have := r.start_lt; omega)
        size_le := by simpa using r.size_le
        start_of_lt := fun hl => absurd (by simpa using hl) h })

def extend (r : Ring α) (xs : List α) : Ring α :=
  xs.foldl (fun r x => (r.push x).2) r

def clear (r : Ring α) : Ring α :=
  { r with
    items := #[]
    start := 0
    start_lt := by have := r.start_lt; omega
    size_le := Nat.zero_le _
    start_of_lt := fun _ => rfl }

def last? (r : Ring α) : Option α :=
  if r.size = 0 then none else r.get? (r.size - 1)

-- The elements from the oldest to the newest.
def toList (r : Ring α) : List α :=
  (List.range r.size).filterMap r.get?

-- How far a reading from both ends has come: what lies from `front` up to `back` is still to
-- be read.
structure Cursor where
  front : Nat
  back : Nat

def cursor (r : Ring α) : Cursor := ⟨0, r.size⟩

def Cursor.remaining (c : Cursor) : Nat := c.back - c.front

def next (r : Ring α) (c : Cursor) : Option α × Cursor :=
  if c.back ≤ c.front then (none, c) else (r.get? c.front, { c with front := c.front + 1 })

def nextBack (r : Ring α) (c : Cursor) : Option α × Cursor :=
  if c.back ≤ c.front then (none, c) else (r.get? (c.back - 1), { c with back := c.back - 1 })

end Ring

end DesktopShell

namespace DesktopShell

-- A finite table from names to values. Each name has one value, the one it was given last.
structure Table (α : Type) where
  entries : List (String × α)
  deriving DecidableEq

namespace Table

variable {α : Type}

def empty : Table α := ⟨[]⟩

def get? (t : Table α) (key : String) : Option α :=
  t.entries.lookup key

def erase (t : Table α) (key : String) : Table α :=
  ⟨t.entries.filter (·.1 ≠ key)⟩

def set (t : Table α) (key : String) (value : α) : Table α :=
  ⟨(key, value) :: (t.erase key).entries⟩

def has (t : Table α) (key : String) : Bool :=
  (t.get? key).isSome

theorem get?_empty (key : String) : (empty : Table α).get? key = none := rfl

theorem get?_erase (t : Table α) (key other : String) :
    (t.erase key).get? other = if other = key then none else t.get? other := by
  simp only [get?, erase]
  induction t.entries with
  | nil => simp
  | cons e es ih =>
      obtain ⟨k, v⟩ := e
      by_cases hk : k = key
      · subst hk
        by_cases ho : other = k
        · simpa [ho] using ih
        · simpa [ho, List.lookup_cons, beq_false_of_ne ho] using ih
      · by_cases ho : other = k
        · subst ho
          simp [hk]
        · simpa [hk, List.lookup_cons, beq_false_of_ne ho] using ih

theorem get?_set (t : Table α) (key other : String) (value : α) :
    (t.set key value).get? other = if other = key then some value else t.get? other := by
  by_cases ho : other = key
  · simp [get?, set, ho]
  · have := get?_erase t key other
    simp only [get?, ho, if_false] at this
    simp [get?, set, List.lookup_cons, beq_false_of_ne ho, this, ho]

end Table

end DesktopShell

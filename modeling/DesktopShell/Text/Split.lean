namespace DesktopShell.Text

-- The parts between the separators, empty parts included: one more than there are separators.
def split (sep : Char) : List Char → List (List Char)
  | [] => [[]]
  | c :: cs =>
      if c = sep then [] :: split sep cs
      else match split sep cs with
        | [] => [[c]]
        | part :: parts => (c :: part) :: parts

-- Split at the last separator.
def splitLast? (sep : Char) : List Char → Option (List Char × List Char)
  | [] => none
  | c :: cs =>
      match splitLast? sep cs with
      | some (before, after) => some (c :: before, after)
      | none => if c = sep then some ([], cs) else none

-- Split at the first separator.
def splitFirst? (sep : Char) : List Char → Option (List Char × List Char)
  | [] => none
  | c :: cs => if c = sep then some ([], cs) else (splitFirst? sep cs).map fun p => (c :: p.1, p.2)

-- A text ends its lines with a line feed or with a carriage return and a line feed. What
-- follows the last line feed is a line too, kept as it is, unless it is empty.
def lines (s : String) : List String :=
  let parts := split '\n' s.toList
  let ended := parts.dropLast.map fun part =>
    if part.getLast? = some '\r' then part.dropLast else part
  let rest := match parts.getLast? with
    | some [] | none => []
    | some part => [part]
  (ended ++ rest).map String.ofList

theorem split_ne_nil (sep : Char) (cs : List Char) : split sep cs ≠ [] := by
  cases cs with
  | nil => simp [split]
  | cons c cs =>
      simp only [split]
      split
      · simp
      · split <;> simp

theorem splitLast?_eq_none {sep : Char} {cs : List Char} (h : splitLast? sep cs = none) :
    sep ∉ cs := by
  induction cs with
  | nil => simp
  | cons c cs ih =>
      simp only [splitLast?] at h
      split at h
      · simp at h
      · next hs =>
          split at h
          · simp at h
          · next hc => simpa [Ne.symm hc] using ih hs

-- The part behind the last separator holds none itself.
theorem splitLast?_eq_some {sep : Char} {cs before after : List Char}
    (h : splitLast? sep cs = some (before, after)) : cs = before ++ sep :: after ∧ sep ∉ after := by
  induction cs generalizing before with
  | nil => simp [splitLast?] at h
  | cons c cs ih =>
      simp only [splitLast?] at h
      split at h
      · next hs =>
          obtain ⟨rfl, rfl⟩ := Prod.mk.injEq .. ▸ Option.some.injEq .. ▸ h
          obtain ⟨rfl, ha⟩ := ih hs
          exact ⟨rfl, ha⟩
      · next hs =>
          split at h
          · next hc =>
              obtain ⟨rfl, rfl⟩ := Prod.mk.injEq .. ▸ Option.some.injEq .. ▸ h
              exact ⟨by simp [hc], splitLast?_eq_none hs⟩
          · simp at h

theorem splitLast?_append {sep : Char} (before : List Char) {after : List Char} (h : sep ∉ after) :
    splitLast? sep (before ++ sep :: after) = some (before, after) := by
  induction before with
  | nil =>
      cases hs : splitLast? sep after with
      | none => simp [splitLast?, hs]
      | some parts =>
          obtain ⟨front, back⟩ := parts
          obtain ⟨rfl, -⟩ := splitLast?_eq_some hs
          simp at h
  | cons c before ih => simp [splitLast?, ih]

end DesktopShell.Text

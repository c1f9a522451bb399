import DesktopShell.Proofs.Ring.Contents

namespace DesktopShell.Ring

variable {α : Type}

section Cursor

-- The end at which a reading takes its next element.
inductive End
  | front
  | back

def read (r : Ring α) (c : Cursor) : End → Option α × Cursor
  | .front => r.next c
  | .back => r.nextBack c

-- What is read one after the other at the given ends.
def readAll (r : Ring α) (c : Cursor) : List End → List (Option α)
  | [] => []
  | e :: ends => (r.read c e).1 :: r.readAll (r.read c e).2 ends

-- What is taken away from a list one after the other at the given ends.
def takeAll : List α → List End → List (Option α)
  | _, [] => []
  | l, .front :: ends => l.head? :: takeAll l.tail ends
  | l, .back :: ends => l.getLast? :: takeAll l.dropLast ends

theorem remaining_next_lt {r : Ring α} {c c' : Cursor} {x : α} (h : r.next c = (some x, c')) :
    c'.remaining < c.remaining := by
  unfold next at h
  split at h
  · cases h
  · next hmore =>
      obtain ⟨-, rfl⟩ := Prod.mk.inj h
      simp only [Cursor.remaining]
      omega

-- What is read from the front until there is no more.
def collect (r : Ring α) (c : Cursor) : List α :=
  match _h : r.next c with
  | (none, _) => []
  | (some x, c') => x :: r.collect c'
termination_by c.remaining
decreasing_by exact remaining_next_lt _h

-- `l` is still to be read.
inductive Unread (r : Ring α) : Cursor → List α → Prop
  | mk {before l behind : List α} (h : r.toList = before ++ l ++ behind) :
      Unread r ⟨before.length, before.length + l.length⟩ l

variable {r : Ring α} {c : Cursor} {l : List α}

theorem unread_cursor (r : Ring α) : r.Unread r.cursor r.toList := by
  have h : r.toList = [] ++ r.toList ++ [] := by simp
  have hc : r.cursor = ⟨0, 0 + r.toList.length⟩ := by
    rw [Nat.zero_add, length_toList]
    rfl
  rw [hc]
  exact .mk h

theorem Unread.next (h : r.Unread c l) :
    (r.next c).1 = l.head? ∧ r.Unread (r.next c).2 l.tail := by
  obtain @⟨before, l, behind, h⟩ := h
  cases l with
  | nil =>
      rw [Ring.next, if_pos (by simp)]
      exact ⟨rfl, .mk h⟩
  | cons x l =>
      have hget : r.get? before.length = some x := by
        rw [get?_eq, h]
        simp
      have hmore : r.toList = (before ++ [x]) ++ l ++ behind := by
        rw [h]
        simp
      have hnext := Unread.mk hmore
      rw [List.length_append, List.length_singleton] at hnext
      rw [Ring.next, if_neg (by simp), List.length_cons, Nat.add_comm l.length, ← Nat.add_assoc]
      exact ⟨hget, hnext⟩

theorem Unread.nextBack (h : r.Unread c l) :
    (r.nextBack c).1 = l.getLast? ∧ r.Unread (r.nextBack c).2 l.dropLast := by
  obtain @⟨before, l, behind, h⟩ := h
  rcases List.eq_nil_or_concat l with rfl | ⟨l, x, rfl⟩
  · rw [Ring.nextBack, if_pos (by simp)]
    exact ⟨rfl, .mk h⟩
  · rw [List.concat_eq_append] at h ⊢
    have hget : r.get? (before.length + l.length) = some x := by
      rw [get?_eq, h]
      simp
    have hless : r.toList = before ++ l ++ (x :: behind) := by
      rw [h]
      simp
    rw [Ring.nextBack, if_neg (by simp), List.length_append, List.length_singleton,
      List.getLast?_append, List.dropLast_concat, ← Nat.add_assoc, Nat.add_sub_cancel]
    exact ⟨hget, .mk hless⟩

theorem Unread.readAll (h : r.Unread c l) (ends : List End) : r.readAll c ends = takeAll l ends := by
  induction ends generalizing c l with
  | nil => rfl
  | cons e ends ih =>
      cases e with
      | front =>
          obtain ⟨hread, hrest⟩ := h.next
          rw [Ring.readAll, takeAll, read, hread, ih hrest]
      | back =>
          obtain ⟨hread, hrest⟩ := h.nextBack
          rw [Ring.readAll, takeAll, read, hread, ih hrest]

theorem Unread.collect (h : r.Unread c l) : r.collect c = l := by
  induction l generalizing c with
  | nil =>
      obtain ⟨hread, -⟩ := h.next
      unfold Ring.collect
      split
      · rfl
      · next hsome => rw [hsome] at hread; cases hread
  | cons x l ih =>
      obtain ⟨hread, hrest⟩ := h.next
      unfold Ring.collect
      split
      · next hnone => rw [hnone] at hread; cases hread
      · next hsome =>
          rw [hsome] at hread hrest
          cases hread
          rw [ih hrest]

end Cursor

-- A ring with `capacity` slots that holds `contents`, the oldest first: where it stores them, what is
-- read of it, and what it gives back for a new one.
structure Holds (r : Ring α) (capacity : Nat) (contents : List α) : Prop where
  capacity_eq : r.capacity = capacity
  size_eq : r.size = contents.length
  inRange : ∀ i, r.slot i < capacity
  stored : ∀ i (h : i < contents.length), r.items[r.slot i]? = some contents[i]
  written : ∀ x i, (r.push x).2.items[i]? = if i = r.slot r.size then some x else r.items[i]?
  toList_eq : r.toList = contents
  collect_eq : r.collect r.cursor = contents
  readAll_eq : ∀ ends, r.readAll r.cursor ends = takeAll contents ends
  get?_eq : ∀ i, r.get? i = contents[i]?
  last?_eq : r.last? = contents.getLast?
  push_fst : ∀ x, (r.push x).1 = if contents.length = capacity then contents.head? else none

theorem stored_slot (r : Ring α) {i : Nat} (h : i < r.toList.length) :
    r.items[r.slot i]? = some r.toList[i] := by
  have hi : i < r.size := by
    rw [← length_toList]
    exact h
  have hget := r.get?_eq i
  rw [get?, dif_pos hi, List.getElem?_eq_getElem h] at hget
  rw [← hget, Array.getElem?_eq_getElem (r.slot_lt i hi)]

-- A new element is written behind the newest, which in a full ring is where the oldest was.
theorem written_slot (r : Ring α) (x : α) (i : Nat) :
    (r.push x).2.items[i]? = if i = r.slot r.size then some x else r.items[i]? := by
  rcases r.size_lt_or_full with h | h
  · have hslot : r.slot r.size = r.items.size := by
      rw [slot, r.start_of_lt h, Nat.zero_add, Nat.mod_eq_of_lt h]
      rfl
    rw [(push_of_lt x h).2.1, Array.getElem?_push, hslot]
  · have hslot : r.slot r.size = r.start := by
      rw [slot, h, Nat.add_mod_right, Nat.mod_eq_of_lt r.start_lt]
    obtain ⟨hlt, -, hitems, -⟩ := push_of_full x h
    rw [hitems, Array.getElem?_set, hslot]
    simp only [eq_comm]

theorem holds_toList (r : Ring α) : r.Holds r.capacity r.toList where
  capacity_eq := rfl
  size_eq := r.length_toList.symm
  inRange _ := Nat.mod_lt _ (Nat.zero_lt_of_lt r.start_lt)
  stored _ h := r.stored_slot h
  written := r.written_slot
  toList_eq := rfl
  collect_eq := (unread_cursor r).collect
  readAll_eq := (unread_cursor r).readAll
  get?_eq := r.get?_eq
  last?_eq := r.last?_eq
  push_fst := r.push_fst

inductive Step (α : Type)
  | push (x : α)
  | extend (xs : List α)
  | clear

def perform (r : Ring α) : Step α → Ring α
  | .push x => (r.push x).2
  | .extend xs => r.extend xs
  | .clear => r.clear

def performAll (r : Ring α) (steps : List (Step α)) : Ring α :=
  steps.foldl perform r

def Step.addTo (before : List α) : Step α → List α
  | .push x => before ++ [x]
  | .extend xs => before ++ xs
  | .clear => []

-- What has been added since all was cleared for the last time.
def added (steps : List (Step α)) : List α :=
  steps.foldl Step.addTo []

theorem toList_perform {r : Ring α} {before : List α} (h : r.toList = before.rtake r.capacity)
    (step : Step α) :
    (r.perform step).toList = (step.addTo before).rtake r.capacity ∧
      (r.perform step).capacity = r.capacity := by
  cases step with
  | push x =>
      refine ⟨?_, r.capacity_push x⟩
      rw [perform, toList_push, h, rtake_append_rtake]
      rfl
  | extend xs =>
      obtain ⟨hlist, hcapacity⟩ := r.toList_extend xs
      refine ⟨?_, hcapacity⟩
      rw [perform, hlist, h, rtake_append_rtake]
      rfl
  | clear =>
      refine ⟨?_, rfl⟩
      rw [perform, toList_clear, Step.addTo, List.rtake_nil]

theorem toList_performAll {r : Ring α} {before : List α} (h : r.toList = before.rtake r.capacity)
    (steps : List (Step α)) :
    (r.performAll steps).toList = (steps.foldl Step.addTo before).rtake r.capacity ∧
      (r.performAll steps).capacity = r.capacity := by
  induction steps generalizing r before with
  | nil => exact ⟨h, rfl⟩
  | cons step steps ih =>
      obtain ⟨hlist, hcapacity⟩ := toList_perform h step
      rw [← hcapacity] at hlist ⊢
      exact ih hlist

-- A ring holds the newest of what has been added since it was cleared, as many as it has slots.
theorem holds_performAll {capacity : Nat} (hpos : 0 < capacity) (steps : List (Step α)) :
    ((make capacity hpos).performAll steps).Holds capacity ((added steps).rtake capacity) := by
  have hempty : (make capacity hpos : Ring α).toList = [].rtake capacity := by
    rw [toList_make, List.rtake_nil]
  obtain ⟨hlist, hcapacity⟩ := toList_performAll hempty steps
  have hholds := holds_toList ((make capacity hpos).performAll steps)
  rwa [hlist, hcapacity] at hholds

-- Cleared when it had come round once, and full again.
theorem holds_performAll_round :
    let steps : List (Step Nat) := [.extend [1, 2, 3], .clear, .push 4, .extend [5, 6, 7], .push 8]
    0 < 3 ∧ added steps = [4, 5, 6, 7, 8] ∧
      ((make 3 (by decide)).performAll steps).Holds 3 [6, 7, 8] :=
  ⟨by decide, rfl, holds_performAll (by decide) _⟩

end DesktopShell.Ring

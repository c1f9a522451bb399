import DesktopShell.Ring
import Mathlib.Data.List.DropRight
import Mathlib.Data.List.Rotate

namespace DesktopShell.Ring

variable {α : Type}

section Lists

-- Of the newest `n` elements no more is needed to know the newest `n` when others are added.
theorem rtake_append_rtake (n : Nat) (l m : List α) :
    (l.rtake n ++ m).rtake n = (l ++ m).rtake n := by
  have hmin : min (n - m.length) n = n - m.length := by omega
  simp only [List.rtake_eq_reverse_take_reverse, List.reverse_append, List.reverse_reverse,
    List.take_append, List.take_take, List.length_reverse, hmin]

theorem rtake_of_length_le {n : Nat} {l : List α} (h : l.length ≤ n) : l.rtake n = l := by
  rw [List.rtake, Nat.sub_eq_zero_of_le h, List.drop_zero]

theorem rtake_concat {n : Nat} {l : List α} (hpos : 0 < n) (h : l.length = n) (x : α) :
    (l ++ [x]).rtake n = l.tail ++ [x] := by
  have hne : l ≠ [] := by
    rw [← List.length_pos_iff, h]
    exact hpos
  rw [List.rtake, List.length_append, h, List.length_singleton, Nat.add_sub_cancel_left,
    List.drop_one, List.tail_append_of_ne_nil hne]

-- To write over the element where a list is turned, and to turn it by one more, is to drop the first
-- of the turned list and to put the new one last.
theorem rotate_set {l : List α} {n : Nat} (h : n < l.length) (x : α) :
    (l.set n x).rotate (n + 1) = (l.rotate n).tail ++ [x] := by
  have hset : n + 1 ≤ (l.set n x).length := by
    rw [List.length_set]
    exact h
  have hdrop : (l.set n x).drop (n + 1) = l.drop (n + 1) := List.drop_set_of_lt (Nat.lt_succ_self n)
  have htake : (l.set n x).take (n + 1) = l.take n ++ [x] := by
    rw [List.take_add_one, List.take_set_of_le le_rfl]
    simp [h]
  rw [List.rotate_eq_drop_append_take hset, hdrop, htake,
    List.rotate_eq_drop_append_take h.le, List.drop_eq_getElem_cons h, List.cons_append,
    List.tail_cons, List.append_assoc]

theorem filterMap_getElem?_range (l : List α) (n : Nat) :
    (List.range n).filterMap (l[·]?) = l.take n := by
  induction n with
  | zero => simp
  | succ n ih =>
      rw [List.range_succ, List.filterMap_append, ih, List.take_add_one]
      cases h : l[n]? <;> simp [h]

end Lists

variable (r : Ring α)

theorem start_lt_of_full (h : r.size = r.capacity) : r.start < r.items.size := by
  have := r.start_lt
  rw [size] at h
  omega

-- Whether or not the ring is full, the oldest element is at the start and the others follow in a
-- circle.
theorem slot_eq {i : Nat} (h : i < r.size) : r.slot i = (i + r.start) % r.size := by
  by_cases hfull : r.size = r.capacity
  · rw [slot, hfull, Nat.add_comm]
  · have hroom : r.items.size < r.capacity := by
      have := r.size_le
      rw [size] at hfull
      omega
    rw [slot, r.start_of_lt hroom, Nat.zero_add, Nat.add_zero, Nat.mod_eq_of_lt h,
      Nat.mod_eq_of_lt (Nat.lt_trans h hroom)]

theorem get?_eq_rotate (i : Nat) : r.get? i = (r.items.toList.rotate r.start)[i]? := by
  unfold get?
  split
  · next h =>
      have hlength : i < r.items.toList.length := h
      have hslot : (i + r.start) % r.items.toList.length = r.slot i := (r.slot_eq h).symm
      rw [List.getElem?_rotate hlength, hslot]
      simp
  · next h =>
      have hlength : (r.items.toList.rotate r.start).length ≤ i := by
        rw [List.length_rotate]
        exact Nat.le_of_not_lt h
      rw [List.getElem?_eq_none hlength]

-- The contents of a ring are what it stores, turned so that the oldest comes first.
theorem toList_eq_rotate : r.toList = r.items.toList.rotate r.start := by
  have hlength : (r.items.toList.rotate r.start).length = r.size := by
    rw [List.length_rotate]
    rfl
  rw [toList, funext r.get?_eq_rotate, filterMap_getElem?_range, ← hlength, List.take_length]

theorem get?_eq (i : Nat) : r.get? i = r.toList[i]? := by
  rw [get?_eq_rotate, toList_eq_rotate]

theorem length_toList : r.toList.length = r.size := by
  rw [toList_eq_rotate, List.length_rotate]
  rfl

theorem last?_eq : r.last? = r.toList.getLast? := by
  rw [last?, List.getLast?_eq_getElem?, r.length_toList, get?_eq]
  split
  · next h =>
      have hlength : r.toList.length ≤ r.size - 1 := by
        rw [r.length_toList, h]
      rw [List.getElem?_eq_none hlength]
  · rfl

section Push

variable {r} (x : α)

theorem push_of_lt (h : r.size < r.capacity) :
    (r.push x).1 = none ∧ (r.push x).2.items = r.items.push x ∧ (r.push x).2.start = r.start := by
  unfold push
  split
  · exact ⟨rfl, rfl, rfl⟩
  · next hfull => exact absurd h hfull

theorem push_of_full (h : r.size = r.capacity) :
    ∃ hstart : r.start < r.items.size,
      (r.push x).1 = some r.items[r.start] ∧
        (r.push x).2.items = r.items.set r.start x hstart ∧
        (r.push x).2.start = (r.start + 1) % r.capacity := by
  refine ⟨r.start_lt_of_full h, ?_⟩
  unfold push
  split
  · next hroom => exact absurd h (Nat.ne_of_lt hroom)
  · exact ⟨rfl, rfl, rfl⟩

variable (r)

theorem capacity_push : (r.push x).2.capacity = r.capacity := by
  unfold push
  split <;> rfl

theorem size_lt_or_full : r.size < r.capacity ∨ r.size = r.capacity :=
  Nat.lt_or_eq_of_le r.size_le

-- A ring gives an element back only when it is full, and then it is the oldest.
theorem push_fst : (r.push x).1 = if r.toList.length = r.capacity then r.toList.head? else none := by
  rw [length_toList]
  rcases r.size_lt_or_full with h | h
  · rw [(push_of_lt x h).1, if_neg (Nat.ne_of_lt h)]
  · obtain ⟨hlt, hfst, -⟩ := push_of_full x h
    have hlength : r.start < r.items.toList.length := hlt
    rw [hfst, if_pos h, toList_eq_rotate, List.head?_rotate hlength]
    simp

theorem toList_push_of_lt (h : r.size < r.capacity) : (r.push x).2.toList = r.toList ++ [x] := by
  obtain ⟨-, hitems, hstart⟩ := push_of_lt x h
  rw [toList_eq_rotate, toList_eq_rotate, hitems, hstart, r.start_of_lt h, List.rotate_zero,
    List.rotate_zero, Array.toList_push]

theorem toList_push_of_full (h : r.size = r.capacity) :
    (r.push x).2.toList = r.toList.tail ++ [x] := by
  obtain ⟨hlt, -, hitems, hstart⟩ := push_of_full x h
  have hlt : r.start < r.items.toList.length := hlt
  have hlength : (r.items.toList.set r.start x).length = r.capacity := by
    rw [List.length_set]
    exact h
  rw [toList_eq_rotate, toList_eq_rotate, hitems, hstart, Array.toList_set, ← hlength,
    List.rotate_mod, rotate_set hlt]

theorem toList_push : (r.push x).2.toList = (r.toList ++ [x]).rtake r.capacity := by
  rcases r.size_lt_or_full with h | h
  · have hlength : (r.toList ++ [x]).length ≤ r.capacity := by
      rw [List.length_append, length_toList]
      exact h
    rw [toList_push_of_lt r x h, rtake_of_length_le hlength]
  · have hlength : r.toList.length = r.capacity := r.length_toList.trans h
    rw [toList_push_of_full r x h, rtake_concat (Nat.zero_lt_of_lt r.start_lt) hlength]

end Push

theorem toList_make (capacity : Nat) (h : 0 < capacity) : (make capacity h : Ring α).toList = [] := rfl

theorem toList_clear : r.clear.toList = [] := rfl

theorem toList_extend (xs : List α) :
    (r.extend xs).toList = (r.toList ++ xs).rtake r.capacity ∧
      (r.extend xs).capacity = r.capacity := by
  induction xs generalizing r with
  | nil =>
      have hlength : r.toList.length ≤ r.capacity := by
        rw [length_toList]
        exact r.size_le
      rw [List.append_nil, rtake_of_length_le hlength]
      exact ⟨rfl, rfl⟩
  | cons x xs ih =>
      obtain ⟨hlist, hcapacity⟩ := ih (r.push x).2
      rw [toList_push, capacity_push, rtake_append_rtake, List.append_assoc] at hlist
      exact ⟨hlist, hcapacity.trans (r.capacity_push x)⟩

end DesktopShell.Ring

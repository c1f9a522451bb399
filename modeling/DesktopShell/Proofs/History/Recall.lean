import DesktopShell.History
import DesktopShell.Proofs.Ring.Newest

namespace DesktopShell.History

inductive Step
  | record (line : String)
  | previous
  | next
  | reset

def perform (h : History) : Step → History
  | .record line => h.record line
  | .previous => h.recallPrevious.2
  | .next => h.recallNext.2
  | .reset => h.resetCursor

def performAll (h : History) (steps : List Step) : History :=
  steps.foldl perform h

-- What a step gives a history to remember.
def Step.lines : Step → List String
  | .record line => if Text.allBlank line then [] else [line]
  | .previous | .next | .reset => []

-- The lines that were recorded and are not blank, as often as they were recorded.
def recorded (steps : List Step) : List String :=
  steps.flatMap Step.lines

-- The line one step back, from the oldest around to the newest.
def back (h : History) : Nat :=
  match h.cursor with
  | none | some 0 => h.entries.size - 1
  | some (i + 1) => i

-- A recall is at one of the lines.
def InRange (h : History) : Prop :=
  ∀ i, h.cursor = some i → i < h.entries.size

variable {h : History}

section Recall

theorem recallPrevious_of_empty (hempty : h.entries.size = 0) : h.recallPrevious = (none, h) :=
  if_pos hempty

theorem recallPrevious_eq (hsome : h.entries.size ≠ 0) :
    h.recallPrevious = (h.entries.get? h.back, { h with cursor := some h.back }) :=
  if_neg hsome

theorem back_lt (hrange : h.InRange) (hsome : h.entries.size ≠ 0) : h.back < h.entries.size := by
  unfold back
  split
  · omega
  · omega
  · next i hi => exact Nat.lt_of_succ_lt (hrange (i + 1) hi)

-- A step forward leads to the next line, or behind the newest, where the recall ends.
theorem recallNext_cases (h : History) :
    (∃ i, i + 1 < h.entries.size ∧
        h.recallNext = ((h.entries.get? (i + 1)).getD "", { h with cursor := some (i + 1) })) ∨
      h.recallNext = ("", h.resetCursor) := by
  unfold recallNext
  split
  · next i hi =>
      split
      · next hlt => exact .inl ⟨i, hlt, rfl⟩
      · exact .inr rfl
  · exact .inr rfl

theorem entries_recallPrevious (h : History) : h.recallPrevious.2.entries = h.entries := by
  by_cases hempty : h.entries.size = 0
  · rw [recallPrevious_of_empty hempty]
  · rw [recallPrevious_eq hempty]

theorem entries_recallNext (h : History) : h.recallNext.2.entries = h.entries := by
  rcases h.recallNext_cases with ⟨i, -, hnext⟩ | hnext
  · rw [hnext]
  · rw [hnext]
    rfl

theorem inRange_of_none (hnone : h.cursor = none) : h.InRange := by
  intro i hi
  rw [hnone] at hi
  cases hi

theorem inRange_perform (hrange : h.InRange) (step : Step) : (h.perform step).InRange := by
  cases step with
  | record line => exact inRange_of_none rfl
  | previous =>
      by_cases hempty : h.entries.size = 0
      · rwa [perform, recallPrevious_of_empty hempty]
      · rw [perform, recallPrevious_eq hempty]
        rintro i ⟨⟩
        exact back_lt hrange hempty
  | next =>
      rcases h.recallNext_cases with ⟨i, hlt, hnext⟩ | hnext
      · rw [perform, hnext]
        rintro j ⟨⟩
        exact hlt
      · rw [perform, hnext]
        exact inRange_of_none rfl
  | reset => exact inRange_of_none rfl

end Recall

-- A history that remembers at most `capacity` lines, and these now: a recall is at one of them, steps
-- back never fail but where there is none, what is recalled is the line that the recall is at then,
-- and no recall changes any line.
structure Remembers (h : History) (capacity : Nat) (lines : List String) : Prop where
  holds : h.entries.Holds capacity lines
  cursor_lt : ∀ i, h.cursor = some i → i < lines.length
  previous_eq_none_iff : h.recallPrevious.1 = none ↔ lines = []
  previous_at : ∀ line, h.recallPrevious.1 = some line →
    ∃ i, h.recallPrevious.2.cursor = some i ∧ lines[i]? = some line
  next_at : (h.recallNext.1 = "" ∧ h.recallNext.2.cursor = none) ∨
    ∃ i, h.recallNext.2.cursor = some i ∧ lines[i]? = some h.recallNext.1
  entries_previous : h.recallPrevious.2.entries = h.entries
  entries_next : h.recallNext.2.entries = h.entries
  entries_reset : h.resetCursor.entries = h.entries

section Remembers

theorem get?_isSome {r : Ring String} {i : Nat} (hi : i < r.size) : ∃ line, r.get? i = some line := by
  have hlength : i < r.toList.length := by
    rw [r.length_toList]
    exact hi
  exact ⟨r.toList[i], by rw [r.get?_eq, List.getElem?_eq_getElem hlength]⟩

theorem remembers_of_inRange (hrange : h.InRange) :
    h.Remembers h.entries.capacity h.entries.toList where
  holds := h.entries.holds_toList
  cursor_lt i hi := by
    rw [h.entries.length_toList]
    exact hrange i hi
  previous_eq_none_iff := by
    rw [← List.length_eq_zero_iff, h.entries.length_toList]
    by_cases hempty : h.entries.size = 0
    · rw [recallPrevious_of_empty hempty]
      exact iff_of_true rfl hempty
    · obtain ⟨line, hline⟩ := get?_isSome (back_lt hrange hempty)
      rw [recallPrevious_eq hempty, hline]
      exact iff_of_false (by simp) hempty
  previous_at line hline := by
    by_cases hempty : h.entries.size = 0
    · rw [recallPrevious_of_empty hempty] at hline
      cases hline
    · rw [recallPrevious_eq hempty] at hline ⊢
      exact ⟨h.back, rfl, (h.entries.get?_eq h.back).symm.trans hline⟩
  next_at := by
    rcases h.recallNext_cases with ⟨i, hlt, hnext⟩ | hnext
    · obtain ⟨line, hline⟩ := get?_isSome hlt
      rw [hnext, hline]
      exact .inr ⟨i + 1, rfl, (h.entries.get?_eq (i + 1)).symm.trans hline⟩
    · rw [hnext]
      exact .inl ⟨rfl, rfl⟩
  entries_previous := h.entries_recallPrevious
  entries_next := h.entries_recallNext
  entries_reset := rfl

end Remembers

theorem toList_perform {before : List String}
    (hlines : h.entries.toList = before.rtake h.entries.capacity) (step : Step) :
    (h.perform step).entries.toList = (before ++ step.lines).rtake h.entries.capacity ∧
      (h.perform step).entries.capacity = h.entries.capacity := by
  cases step with
  | record line =>
      cases hblank : Text.allBlank line with
      | true =>
          simpa only [perform, record, Step.lines, hblank, if_true, List.append_nil, and_true]
            using hlines
      | false =>
          simp only [perform, record, Step.lines, hblank, Bool.false_eq_true, if_false]
          refine ⟨?_, h.entries.capacity_push line⟩
          rw [Ring.toList_push, hlines, Ring.rtake_append_rtake]
  | previous =>
      rw [perform, entries_recallPrevious, Step.lines, List.append_nil]
      exact ⟨hlines, rfl⟩
  | next =>
      rw [perform, entries_recallNext, Step.lines, List.append_nil]
      exact ⟨hlines, rfl⟩
  | reset =>
      rw [Step.lines, List.append_nil]
      exact ⟨hlines, rfl⟩

theorem performAll_induction {before : List String} (hrange : h.InRange)
    (hlines : h.entries.toList = before.rtake h.entries.capacity) (steps : List Step) :
    (h.performAll steps).InRange ∧
      (h.performAll steps).entries.toList =
        (before ++ recorded steps).rtake h.entries.capacity ∧
      (h.performAll steps).entries.capacity = h.entries.capacity := by
  induction steps generalizing h before with
  | nil =>
      rw [recorded, List.flatMap_nil, List.append_nil]
      exact ⟨hrange, hlines, rfl⟩
  | cons step steps ih =>
      obtain ⟨hstep, hcapacity⟩ := toList_perform hlines step
      rw [← hcapacity] at hstep ⊢
      rw [recorded, List.flatMap_cons, ← List.append_assoc]
      exact ih (inRange_perform hrange step) hstep

-- Whatever is recorded and recalled in between, a history remembers the newest of the lines that are
-- not blank, as many as it has room for.
theorem remembers_performAll {capacity : Nat} (hpos : 0 < capacity) (steps : List Step) :
    ((make capacity hpos).performAll steps).Remembers capacity
      ((recorded steps).rtake capacity) := by
  have hempty : (make capacity hpos).entries.toList = [].rtake capacity := by
    rw [List.rtake_nil]
    exact Ring.toList_make capacity hpos
  obtain ⟨hrange, hlines, hcapacity⟩ :=
    performAll_induction (h := make capacity hpos) (inRange_of_none rfl) hempty steps
  have hremembers := remembers_of_inRange hrange
  rwa [hlines, hcapacity] at hremembers

-- The line that is being recalled is pushed out by another one, and a blank line is recorded.
theorem remembers_performAll_full :
    let steps : List Step :=
      [.record "dir", .record "cd ..", .previous, .previous, .record "dir", .record " \t", .next]
    0 < 2 ∧ recorded steps = ["dir", "cd ..", "dir"] ∧
      ((make 2 (by decide)).performAll steps).Remembers 2 ["cd ..", "dir"] :=
  ⟨by decide, by decide +kernel, remembers_performAll (by decide) _⟩

end DesktopShell.History

import DesktopShell.Shell.Session

namespace DesktopShell

namespace Ring

-- The places of a ring fit into a block of memory, and the block can be had.
structure Fits (width : Nat) (grants : Nat → Bool) (capacity : Nat) : Prop where
  pos : 0 < capacity
  le : capacity * width ≤ largestBlock
  granted : grants (capacity * width) = true

-- Why a ring is refused.
inductive Refused (width : Nat) (grants : Nat → Bool) (capacity : Nat) : Refusal → Prop
  | noCapacity (zero : capacity = 0) : Refused width grants capacity .noCapacity
  | overflow (large : largestBlock < capacity * width) : Refused width grants capacity .overflow
  | denied (pos : 0 < capacity) (le : capacity * width ≤ largestBlock)
      (withheld : grants (capacity * width) = false) : Refused width grants capacity .denied

variable {α : Type} {width capacity : Nat} {grants : Nat → Bool} {refusal : Refusal}

theorem make?_of_fits (h : Fits width grants capacity) :
    (make? width grants capacity : Except Refusal (Ring α)) = .ok (make capacity h.pos) := by
  rw [make?, dif_pos h.pos, if_neg (Nat.not_lt.mpr h.le), if_pos h.granted]

theorem make?_of_refused (h : Refused width grants capacity refusal) :
    (make? width grants capacity : Except Refusal (Ring α)) = .error refusal := by
  cases h with
  | noCapacity zero => rw [make?, dif_neg (by omega)]
  | overflow large =>
      have pos : 0 < capacity := Nat.pos_of_mul_pos_right (Nat.zero_lt_of_lt large)
      rw [make?, dif_pos pos, if_pos large]
  | denied pos le withheld =>
      rw [make?, dif_pos pos, if_neg (Nat.not_lt.mpr le), if_neg (Bool.eq_false_iff.mp withheld)]

theorem fits_or_refused (width : Nat) (grants : Nat → Bool) (capacity : Nat) :
    Fits width grants capacity ∨ ∃ refusal, Refused width grants capacity refusal := by
  rcases Nat.eq_zero_or_pos capacity with zero | pos
  · exact .inr ⟨_, .noCapacity zero⟩
  rcases Nat.lt_or_ge largestBlock (capacity * width) with large | le
  · exact .inr ⟨_, .overflow large⟩
  cases hgrants : grants (capacity * width) with
  | false => exact .inr ⟨_, .denied pos le hgrants⟩
  | true => exact .inl ⟨pos, le, hgrants⟩

end Ring

namespace Memory

-- There is room for both rings of a session.
structure HasRoom (memory : Memory) (settings : Settings) : Prop where
  history : Ring.Fits memory.entryWidth (memory.grants 0) (max 1 settings.historyLimit)
  transcript : Ring.Fits memory.lineWidth (memory.rest settings) (max 1 settings.transcriptLimit)

-- One ring is refused, the transcript's only once the history has its places.
inductive Lacks (memory : Memory) (settings : Settings) : Ring.Refusal → Prop
  | history {refusal : Ring.Refusal}
      (refused : Ring.Refused memory.entryWidth (memory.grants 0) (max 1 settings.historyLimit)
        refusal) : Lacks memory settings refusal
  | transcript {refusal : Ring.Refusal}
      (fits : Ring.Fits memory.entryWidth (memory.grants 0) (max 1 settings.historyLimit))
      (refused : Ring.Refused memory.lineWidth (memory.rest settings)
        (max 1 settings.transcriptLimit) refusal) : Lacks memory settings refusal

variable {memory : Memory} {settings : Settings} {refusal : Ring.Refusal}

theorem hasRoom_or_lacks (memory : Memory) (settings : Settings) :
    memory.HasRoom settings ∨ ∃ refusal, memory.Lacks settings refusal := by
  rcases Ring.fits_or_refused memory.entryWidth (memory.grants 0) (max 1 settings.historyLimit) with
    hhistory | ⟨refusal, hrefused⟩
  · rcases Ring.fits_or_refused memory.lineWidth (memory.rest settings)
      (max 1 settings.transcriptLimit) with htranscript | ⟨refusal, hrefused⟩
    · exact .inl ⟨hhistory, htranscript⟩
    · exact .inr ⟨refusal, .transcript hhistory hrefused⟩
  · exact .inr ⟨refusal, .history hrefused⟩

theorem hasRoom_ample_default : ample.HasRoom .default where
  history := ⟨by decide, by decide, rfl⟩
  transcript := ⟨by decide, by decide, rfl⟩

end Memory

namespace Session

variable {memory : Memory} {settings : Settings} {refusal : Ring.Refusal}

theorem make?_of_hasRoom (h : memory.HasRoom settings) :
    make? memory settings = .ok (make settings) := by
  rw [make?, History.make?, Ring.make?_of_fits h.history]
  dsimp only [bind, Except.bind, pure, Except.pure]
  rw [Ring.make?_of_fits h.transcript]
  rfl

theorem make?_of_lacks (h : memory.Lacks settings refusal) :
    make? memory settings = .error refusal := by
  rw [make?, History.make?]
  cases h with
  | history refused =>
      rw [Ring.make?_of_refused refused]
      rfl
  | transcript fits refused =>
      rw [Ring.make?_of_fits fits]
      dsimp only [bind, Except.bind, pure, Except.pure]
      rw [Ring.make?_of_refused refused]

theorem not_lacks_of_hasRoom (h : memory.HasRoom settings) : ¬ memory.Lacks settings refusal := by
  intro hlacks
  cases (make?_of_hasRoom h).symm.trans (make?_of_lacks hlacks)

end Session

end DesktopShell

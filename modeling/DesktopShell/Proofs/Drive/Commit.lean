import DesktopShell.Drive.Store
import DesktopShell.Proofs.Drive.Adjusted

namespace DesktopShell.Drive

-- A change that nobody interferes with is made as planned, or not at all.
theorem commit?_eq (d : Drive) (change : Change) (now : Moment) :
    d.commit? change now = (change.plan? d.root ⟨d.nextId, now⟩).map fun plan =>
      { subject := plan.subject
        icon := d.icon? change plan.subject
        drive :=
          { root := plan.root
            nextId := if change.creates then d.nextId + 1 else d.nextId
            revision := d.revision + 1
            desktop := d.desktop } } := by
  unfold commit? attempt sight
  cases change.plan? d.root ⟨d.nextId, now⟩ with
  | none => rfl
  | some plan => cases hc : change.creates <;> simp [icon?]

theorem commit?_eq_some_iff {d : Drive} {change : Change} {now : Moment} {result : Committed} :
    d.commit? change now = some result ↔
      ∃ plan, change.plan? d.root ⟨d.nextId, now⟩ = some plan ∧
        result =
          { subject := plan.subject
            icon := d.icon? change plan.subject
            drive :=
              { root := plan.root
                nextId := if change.creates then d.nextId + 1 else d.nextId
                revision := d.revision + 1
                desktop := d.desktop } } := by
  rw [commit?_eq, Option.map_eq_some_iff]
  simp only [eq_comm]

variable {d : Drive} {change : Change} {now : Moment} {result : Committed}

theorem grounded_commit? (hr : d.root.Grounded) (h : d.commit? change now = some result) :
    result.drive.root.Grounded := by
  obtain ⟨plan, hplan, rfl⟩ := commit?_eq_some_iff.mp h
  exact Change.grounded_plan? hr hplan

theorem wellFormed_commit? (hr : d.root.WellFormed)
    (hid : change.creates = true → d.nextId ∉ d.root.ids)
    (h : d.commit? change now = some result) : result.drive.root.WellFormed := by
  obtain ⟨plan, hplan, rfl⟩ := commit?_eq_some_iff.mp h
  exact Change.wellFormed_plan? hr hplan hid

theorem nextId_commit? (h : d.commit? change now = some result) :
    result.drive.nextId = if change.creates then d.nextId + 1 else d.nextId := by
  obtain ⟨plan, -, rfl⟩ := commit?_eq_some_iff.mp h
  rfl

-- Make a change, or leave the drive as it is when it cannot be made.
def after (d : Drive) (change : Change) (now : Moment) : Drive :=
  ((d.commit? change now).map (·.drive)).getD d

theorem after_of_none (h : d.commit? change now = none) : d.after change now = d := by
  rw [after, h]
  rfl

theorem after_of_some (h : d.commit? change now = some result) :
    d.after change now = result.drive := by
  rw [after, h]
  rfl

-- The drive after at most one change.
def Step (d d' : Drive) : Prop :=
  d' = d ∨ ∃ change now result, d.commit? change now = some result ∧ d' = result.drive

theorem after_step (d : Drive) (change : Change) (now : Moment) : d.Step (d.after change now) := by
  unfold after
  cases h : d.commit? change now with
  | none => exact .inl rfl
  | some result => exact .inr ⟨change, now, result, h, rfl⟩

-- All numbers on a drive are below the one for the next item.
def Numbered (d : Drive) : Prop :=
  ∀ i ∈ d.root.ids, i < d.nextId

theorem Numbered.nextId_notMem (h : d.Numbered) : d.nextId ∉ d.root.ids :=
  fun hi => absurd (h _ hi) (UInt64.lt_irrefl _)

theorem succ_ne (i : ItemId) : i + 1 ≠ i := by
  rw [Ne, ← UInt64.toNat_inj, UInt64.toNat_add]
  have := i.toNat_lt
  simp only [UInt64.toNat_one] at *
  omega

theorem toNat_succ {i : ItemId} (h : i.toNat + 1 < UInt64.size) : (i + 1).toNat = i.toNat + 1 := by
  rw [UInt64.toNat_add, UInt64.toNat_one, Nat.mod_eq_of_lt h]

theorem lt_succ_of_ne_zero {i : ItemId} (h : i + 1 ≠ 0) : i < i + 1 := by
  rw [Ne, ← UInt64.toNat_inj, UInt64.toNat_add] at h
  rw [UInt64.lt_iff_toNat_lt, UInt64.toNat_add]
  have := i.toNat_lt
  simp only [UInt64.toNat_one, UInt64.toNat_zero] at *
  omega

theorem numbered_commit? (hr : d.root.WellFormed) (hn : d.Numbered)
    (h : d.commit? change now = some result) (hwrap : result.drive.nextId ≠ 0) :
    result.drive.Numbered := by
  obtain ⟨plan, hplan, rfl⟩ := commit?_eq_some_iff.mp h
  intro i hi
  have hmem := (Change.ids_subperm hr hplan).subset hi
  cases hc : change.creates with
  | false =>
      simp only [Change.newIds, hc, Bool.false_eq_true, if_false, List.nil_append] at hmem ⊢
      exact hn i hmem
  | true =>
      simp only [Change.newIds, hc, if_true, List.singleton_append, List.mem_cons] at hmem hwrap ⊢
      have hnext := lt_succ_of_ne_zero hwrap
      rcases hmem with rfl | hmem
      · exact hnext
      · exact UInt64.lt_trans (hn i hmem) hnext

namespace Step

variable {d' : Drive}

theorem grounded (h : d.Step d') (hr : d.root.Grounded) : d'.root.Grounded := by
  rcases h with rfl | ⟨change, now, result, hresult, rfl⟩
  · exact hr
  · exact grounded_commit? hr hresult

theorem wellFormed (h : d.Step d') (hfresh : d'.nextId ≠ d.nextId → d.nextId ∉ d.root.ids)
    (hr : d.root.WellFormed) : d'.root.WellFormed := by
  rcases h with rfl | ⟨change, now, result, hresult, rfl⟩
  · exact hr
  · refine wellFormed_commit? hr (fun hc => hfresh ?_) hresult
    rw [nextId_commit? hresult, if_pos hc]
    exact succ_ne d.nextId

theorem numbered (h : d.Step d') (hr : d.root.WellFormed) (hn : d.Numbered)
    (hwrap : d'.nextId ≠ 0) : d'.Numbered := by
  rcases h with rfl | ⟨change, now, result, hresult, rfl⟩
  · exact hn
  · exact numbered_commit? hr hn hresult hwrap

-- One number at most is used up, as long as there is one left.
theorem toNat_nextId (h : d.Step d') (hroom : d.nextId.toNat + 1 < UInt64.size) :
    d'.nextId.toNat = d.nextId.toNat ∨ d'.nextId.toNat = d.nextId.toNat + 1 := by
  rcases h with rfl | ⟨change, now, result, hresult, rfl⟩
  · exact .inl rfl
  · rw [nextId_commit? hresult, ← toNat_succ hroom]
    split
    · exact .inr rfl
    · exact .inl rfl

theorem numbered_of_room (h : d.Step d') (hr : d.root.WellFormed)
    (hn : d.Numbered) (hroom : d.nextId.toNat + 1 < UInt64.size) :
    d'.Numbered ∧ d'.nextId.toNat ≤ d.nextId.toNat + 1 := by
  have hnext := h.toNat_nextId hroom
  have htop := UInt64.lt_iff_toNat_lt.mp (hn _ (Item.id_mem_ids (Item.self_mem_walk d.root)))
  refine ⟨h.numbered hr hn fun hzero => ?_, by omega⟩
  rw [hzero, UInt64.toNat_zero] at hnext
  omega

end Step

end DesktopShell.Drive

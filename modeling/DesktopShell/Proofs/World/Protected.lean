import DesktopShell.Proofs.Drive.Protected
import DesktopShell.Proofs.Drive.Trail
import DesktopShell.Proofs.World.Run

namespace DesktopShell

-- What is protected on `d` is still on `d'`, and is still found where it was found before.
structure Drive.Keeps (d d' : Drive) : Prop where
  steady : d.root.Steady d'.root
  kept : ∀ e ∈ d.root.entries, e.isProtected = true → ∃ e' ∈ d'.root.entries, e.Kept e'

namespace Drive

theorem Keeps.refl (d : Drive) : d.Keeps d :=
  ⟨.refl _, fun e he _ => ⟨e, he, .refl e⟩⟩

theorem Keeps.trans {d d' d'' : Drive} (h : d.Keeps d') (h' : d'.Keeps d'') : d.Keeps d'' := by
  refine ⟨h.steady.trans h'.steady, fun e he hp => ?_⟩
  obtain ⟨e', he', hk⟩ := h.kept e he hp
  obtain ⟨e'', he'', hk'⟩ := h'.kept e' he' (hk.isProtected_eq.trans hp)
  exact ⟨e'', he'', hk.trans hk'⟩

theorem Step.keeps {d d' : Drive} (h : d.Step d') (hr : d.root.WellFormed) : d.Keeps d' := by
  rcases h with rfl | ⟨change, now, result, hresult, rfl⟩
  · exact .refl _
  · exact ⟨steady_commit? hr hresult, fun e he hp => exists_kept_commit? hr hresult he hp⟩

end Drive

namespace World

variable {w : World} {moves : List Move}

theorem keeps_run (hr : w.drive.root.WellFormed) (hfresh : w.Fresh moves) :
    w.drive.Keeps (w.run moves).drive := by
  induction moves generalizing w with
  | nil => exact .refl _
  | cons move rest ih =>
      have hstep := w.step_drive move
      exact (hstep.keeps hr).trans (ih (hstep.wellFormed hfresh.1 hr) hfresh.2)

-- Numbers stay fresh as long as there are more of them than moves.
theorem fresh_of_room (hr : w.drive.root.WellFormed) (hn : w.drive.Numbered)
    (hroom : w.drive.nextId.toNat + moves.length < UInt64.size) : w.Fresh moves := by
  induction moves generalizing w with
  | nil => trivial
  | cons move rest ih =>
      rw [List.length_cons] at hroom
      have hstep := w.step_drive move
      have hnew := fun _ : (w.step move).drive.nextId ≠ w.drive.nextId => hn.nextId_notMem
      obtain ⟨hn', hle⟩ := hstep.numbered_of_room hr hn (by omega)
      exact ⟨hnew, ih (hstep.wellFormed hnew hr) hn' (by omega)⟩

-- Nobody can get rid of a protected item, hide it, move it, or put another in its place.
theorem protected_survives (hr : w.drive.root.WellFormed) (hfresh : w.Fresh moves) {x : Item}
    (hx : x ∈ w.drive.root.walk) (hp : x.entry.isProtected = true) :
    ∃ x' ∈ (w.run moves).drive.root.walk, x.entry.Kept x'.entry ∧
      ∀ p, w.drive.find? p = some x → (w.run moves).drive.find? p = some x' := by
  have hkeeps := keeps_run hr hfresh
  have hr' := wellFormed_run hr hfresh
  obtain ⟨e', he', hk⟩ := hkeeps.kept _ (Item.entry_mem_entries hx) hp
  obtain ⟨x', hx', rfl⟩ := List.mem_map.mp he'
  refine ⟨x', hx', hk, fun p hfind => ?_⟩
  obtain ⟨y', hy', hk'⟩ := hkeeps.steady.reached hfind hp
  -- What is found and what is kept have one number between them.
  have hsame : y' = x' :=
    hr'.eq_of_id (Item.mem_walk_of_descend hy') hx' (hk'.id_eq.trans hk.id_eq.symm)
  rw [← hsame]
  exact hy'

-- Two guests who try to delete a drive, to cover it with a namesake and to fill it.
def guests : World :=
  ⟨Drive.stock Moment.epoch 1, [.make .default, .make .default], none⟩

theorem wellFormed_guests : guests.drive.root.WellFormed :=
  Drive.wellFormed_stock Moment.epoch 1

theorem fresh_guests {moves : List Move} (h : 27 + moves.length < UInt64.size) :
    guests.Fresh moves := by
  have hn : guests.drive.Numbered := Layout.drive_above Moment.epoch 1 Drive.stockLayout (by decide)
  have hnext : guests.drive.nextId = 27 := Drive.nextId_stock Moment.epoch 1
  apply fresh_of_room wellFormed_guests hn
  rw [hnext]
  exact h

def mischief : List Move :=
  [ .submit 0 "rm /C:" ⟨Moment.epoch, Moment.epoch⟩,
    .change (.create .folder "/" "C:") Moment.epoch,
    .submitFor 1 "mkdir /C:/spare" ⟨Moment.epoch, Moment.epoch⟩ 5,
    .execute 1 "del /C:/Users" ⟨Moment.epoch, Moment.epoch⟩,
    .change (.delete "/C:/Windows/System32") Moment.epoch ]

theorem protected_survives_mischief :
    guests.drive.root.WellFormed ∧ guests.Fresh mischief ∧
      ∃ x ∈ guests.drive.root.walk, x.name = "C:" ∧ x.entry.isProtected = true ∧
        ∃ x' ∈ (guests.run mischief).drive.root.walk, x.entry.Kept x'.entry ∧
          ∀ p, guests.drive.find? p = some x → (guests.run mischief).drive.find? p = some x' := by
  have hr := wellFormed_guests
  have hfresh : guests.Fresh mischief := fresh_guests (by decide)
  obtain ⟨x, rest, hcs, hname, hp⟩ : ∃ x rest, guests.drive.root.children = x :: rest ∧
      x.name = "C:" ∧ x.entry.isProtected = true := ⟨_, _, rfl, rfl, rfl⟩
  have hx : x ∈ guests.drive.root.walk :=
    Item.mem_walk.mpr (.inr ⟨x, by rw [hcs]; exact List.mem_cons_self, Item.self_mem_walk x⟩)
  exact ⟨hr, hfresh, x, hx, hname, hp, protected_survives hr hfresh hx hp⟩

end World

end DesktopShell

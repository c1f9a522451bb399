import DesktopShell.Proofs.Shell.Ending
import DesktopShell.Proofs.World.Protected

namespace DesktopShell

-- A drive whose tree is as it comes, with nothing on it or with the stock.
def Drive.Pristine (d : Drive) : Prop :=
  ∃ now next, d.root = (Drive.empty now next).root ∨ d.root = (Drive.stock now next).root

theorem Drive.Pristine.labelled {d : Drive} (h : d.Pristine) : d.root.Labelled := by
  obtain ⟨now, next, hroot | hroot⟩ := h
  · rw [hroot]
    exact Layout.labelled_drive now next []
  · rw [hroot]
    exact Layout.labelled_drive now next Drive.stockLayout

namespace World

variable {w : World} {moves : List Move} {s : Scene}

theorem labelled_run (start : w.drive.Pristine) (moves : List Move) :
    (w.run moves).drive.root.Labelled :=
  run_drive Drive.Step.labelled start.labelled moves

-- Whatever has been done to a drive, and whatever is typed in a session on it, no command crashes:
-- the name of a program can always be cut where its extension begins by length.
theorem never_crashes_run (start : w.drive.Pristine)
    (reached : s.drive.root = (w.run moves).drive.root) :
    (∀ command ∈ Registry.builtin, ∀ call : Call, (command.handler call s).ending ≠ .crashed) ∧
    (∀ clock line name, (s.execute Registry.builtin clock line).2 ≠ .error (.internal name)) ∧
    ∀ (stamp : Stamp) (name path content : String) (payload : Bytes),
      ∀ x ∈ [Item.textFile stamp name path content, Item.binaryFile stamp name path payload],
        x.isExecutable = true → ∃ stem rest ext, x.entry.extension = some ext ∧ name = stem ++ rest ∧
          rest.utf8ByteSize = ext.utf8ByteSize + 1 ∧ x.stem? = some stem := by
  have hr : s.drive.root.Labelled := by
    rw [reached]
    exact labelled_run start moves
  refine ⟨fun command hcommand call hcrashed => ?_, fun clock line name =>
    s.execute_ne_internal hr clock line name, fun stamp name path content payload x hx hexe => ?_⟩
  · have hproper := Handler.proper_builtin hr command hcommand call
    rw [hcrashed] at hproper
    exact Ending.not_proper_crashed hproper
  · have hlabel : x.entry.Labelled ∧ x.name = name := by
      rcases List.mem_cons.mp hx with rfl | hx
      · exact ⟨rfl, rfl⟩
      · obtain rfl := List.mem_singleton.mp hx
        exact ⟨rfl, rfl⟩
    rw [← hlabel.2]
    exact Item.exists_stem hlabel.1 hexe

-- A shortcut whose extension ends in a Kelvin sign, so that its name is cut behind the dot.
def coldLink : List Move :=
  [ .change (.create (.binary []) "/C:/Users/Guest" "game.ln\u212A") Moment.epoch,
    .submit 1 "mkdir games" ⟨Moment.epoch, Moment.epoch⟩ ]

theorem never_crashes_run_coldLink :
    let s : Scene := ⟨.make .default, (guests.run coldLink).drive, some 0, []⟩
    guests.drive.Pristine ∧ s.drive.root = (guests.run coldLink).drive.root ∧
      (s.lookup? "game.ln\u212A").map (·.isExecutable) = some true ∧
      (s.execute Registry.builtin ⟨Moment.epoch, Moment.epoch⟩ "run game.ln\u212A").2 ≠
        .error (.internal "run") := by
  intro s
  have hstart : guests.drive.Pristine := ⟨Moment.epoch, 1, .inr rfl⟩
  have hreached : s.drive.root = (guests.run coldLink).drive.root := rfl
  have hprogram : (s.lookup? "game.ln\u212A").map (·.isExecutable) = some true := by decide +kernel
  exact ⟨hstart, hreached, hprogram, (never_crashes_run hstart hreached).2.1 _ _ _⟩

end World

end DesktopShell

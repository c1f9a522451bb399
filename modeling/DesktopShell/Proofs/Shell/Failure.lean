import DesktopShell.Proofs.Shell.Act
import DesktopShell.Proofs.Shell.Uniform

namespace DesktopShell

-- Whatever a command does, it has not done it when it fails or crashes.
theorem Handler.Does.scene_eq {call : Call} {scene : Scene} {reply : Reply}
    (h : Handler.Does call scene reply) (hfails : ∀ outcome, reply.ending ≠ .done outcome) :
    reply.scene = scene := by
  cases h with
  | fails | crashes => rfl
  | tells outcome | moves path | connects outcome | disconnects outcome | creates outcome
    | removes outcome | opens outcome => exact absurd rfl (hfails _)

namespace Scene

variable {s : Scene} {clock : Clock} {line : String} {failure : Failure}

theorem execute_of_error (h : (s.execute Registry.builtin clock line).2 = .error failure) :
    s.execute Registry.builtin clock line = (s, .error failure) := by
  suffices hscene : (s.execute Registry.builtin clock line).1 = s from Prod.ext hscene h
  rcases s.execute_cases Registry.builtin clock line with hline | ⟨_, hline⟩ | ⟨command, hcommand, hline⟩
  · rw [hline]
  · rw [hline]
  · rw [hline] at h ⊢
    rw [call_fst]
    apply (Handler.does_builtin command hcommand _ s).scene_eq
    intro outcome hdone
    rw [call] at h
    simp only [hdone] at h
    cases h

theorem Echoed.alike {s s' : Scene} (h : s.Echoed s') : s.Alike 1 s' where
  session := ⟨h.path_eq, h.mode_eq, h.values_eq, by rw [h.settings_eq]⟩
  drive := by
    rw [h.drive_eq]
    exact .refl s.drive
  windows := h.windows_eq

-- What a line fails with does not depend on what is shown and remembered.
theorem Echoed.execute_error {s s' : Scene} (hecho : s.Echoed s')
    (h : (s.execute Registry.builtin clock line).2 = .error failure) :
    s'.execute Registry.builtin clock line = (s', .error failure) := by
  have hnext : (1 : Equiv.Perm ItemId) s.drive.nextId = s'.drive.nextId := by
    rw [hecho.drive_eq]
    rfl
  obtain ⟨-, hresult⟩ := hecho.alike.execute hnext clock clock line
    (T := fun _ _ => True) trivial
  rw [h] at hresult
  apply execute_of_error
  generalize (s'.execute Registry.builtin clock line).2 = r at hresult ⊢
  cases hresult
  rfl

-- A line that fails leaves everything as it was. When it is submitted while nothing is pending, it
-- is remembered, and it is shown with the reason why it failed, and that is all.
theorem receive_of_failed (hidle : s.session.pending = []) (submission : Submission)
    (hfails : (s.execute Registry.builtin submission.clock submission.line).2 = .error failure) :
    let shown := [.command s.session.prompt submission.line, .error failure.message]
    s.execute Registry.builtin submission.clock submission.line = (s, .error failure) ∧
      s.receive submission =
        { s with
          session := { s.session with
            history := s.session.history.record submission.line
            transcript := s.session.transcript.extend shown }
          log := s.log ++ shown.map .shown } := by
  intro shown
  refine ⟨execute_of_error hfails, ?_⟩
  have hready := (s.echoed_ready submission.line).execute_error hfails
  have hstart : (s.start Registry.builtin submission.clock submission.line).1 =
      (s.ready submission.line).print (.error failure.message) := by
    rw [start_fst, hready]
    rfl
  have hpending : (s.start Registry.builtin submission.clock submission.line).1.session.pending =
      [] := by
    rw [hstart]
    show s.flush.session.pending = []
    rw [flush_of_idle hidle, hidle]
  rw [receive_of_idle hpending, hstart, ready, flush_of_idle hidle]
  simp [shown, print, note, mapSession, Ring.extend, Session.prompt]

-- A guest who takes a file for a folder.
theorem receive_of_failed_astray :
    guest.session.pending = [] ∧
      (guest.execute Registry.builtin ⟨.epoch, .epoch⟩ "cd Documents/todo.txt").2 =
        .error (.notADirectory "cd" "Documents/todo.txt") ∧
      (guest.receive ⟨"cd Documents/todo.txt", ⟨.epoch, .epoch⟩, none⟩).log =
        [ .shown (.command "C:\\Users\\Guest>" "cd Documents/todo.txt"),
          .shown (.error "cd: Documents/todo.txt: Not a directory") ] := by
  have hfails : (guest.execute Registry.builtin ⟨.epoch, .epoch⟩ "cd Documents/todo.txt").2 =
      .error (.notADirectory "cd" "Documents/todo.txt") := by decide +kernel
  have hprompt : guest.session.prompt = "C:\\Users\\Guest>" := by decide +kernel
  have hidle : guest.session.pending = [] := rfl
  obtain ⟨-, hreceive⟩ :=
    receive_of_failed hidle ⟨"cd Documents/todo.txt", ⟨.epoch, .epoch⟩, none⟩ hfails
  refine ⟨hidle, hfails, ?_⟩
  rw [hreceive, hprompt]
  rfl

end Scene

end DesktopShell

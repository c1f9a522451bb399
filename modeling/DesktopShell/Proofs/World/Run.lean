import DesktopShell.Proofs.Shell.Act

namespace DesktopShell

-- One drive, the sessions on it, and the number of the last window if there is a window manager.
structure World where
  drive : Drive
  sessions : List Session
  windows : Option Nat

-- What can happen next: somebody changes the drive, or a line is run in one of the sessions,
-- which is waited for, waited for with limited patience, or not shown at all.
inductive Move
  | change (change : Change) (now : Moment)
  | submit (who : Nat) (line : String) (clock : Clock)
  | submitFor (who : Nat) (line : String) (clock : Clock) (patience : Nat)
  | execute (who : Nat) (line : String) (clock : Clock)

def Move.isLine : Move → Bool
  | .change .. => false
  | .submit .. | .submitFor .. | .execute .. => true

namespace World

-- Let one session act. Without that session nothing happens.
def act (w : World) (who : Nat) (f : Scene → Scene) : World :=
  match w.sessions[who]? with
  | none => w
  | some session =>
      let scene := f ⟨session, w.drive, w.windows, []⟩
      ⟨scene.drive, w.sessions.set who scene.session, scene.windows⟩

def step (w : World) : Move → World
  | .change change now => { w with drive := w.drive.after change now }
  | .submit who line clock => w.act who (·.submit Registry.builtin clock line)
  | .submitFor who line clock patience => w.act who (·.submitFor Registry.builtin clock line patience)
  | .execute who line clock => w.act who fun s => (s.execute Registry.builtin clock line).1

def run (w : World) : List Move → World
  | [] => w
  | move :: rest => (w.step move).run rest

theorem run_append (w : World) (moves more : List Move) :
    w.run (moves ++ more) = (w.run moves).run more := by
  induction moves generalizing w with
  | nil => rfl
  | cons move rest ih => exact ih (w.step move)

section Related

variable {R : Drive → Drive → Prop} (hsame : ∀ d, R d d)

include hsame

theorem act_related (w : World) (who : Nat) {f : Scene → Scene}
    (hf : ∀ s : Scene, R s.drive (f s).drive) : R w.drive (w.act who f).drive := by
  unfold act
  split
  · exact hsame _
  · next session _ => exact hf ⟨session, w.drive, w.windows, []⟩

-- What holds of every call of a command holds of every line, whoever types it and waits for it.
theorem line_related
    (hcall : ∀ command ∈ Registry.builtin, ∀ (call : Call) (scene : Scene),
      R scene.drive (command.handler call scene).scene.drive)
    (w : World) {move : Move} (hline : move.isLine = true) :
    R w.drive (w.step move).drive := by
  cases move with
  | change change now => cases hline
  | submit who line clock =>
      exact w.act_related hsame who fun s =>
        s.line_related hsame hcall (.submit ⟨line, clock, none⟩) rfl
  | submitFor who line clock patience =>
      exact w.act_related hsame who fun s =>
        s.line_related hsame hcall (.submit ⟨line, clock, some patience⟩) rfl
  | execute who line clock =>
      exact w.act_related hsame who fun s => s.line_related hsame hcall (.execute line clock) rfl

end Related

-- Whoever moves, the drive changes once at most.
theorem step_drive (w : World) (move : Move) : w.drive.Step (w.step move).drive := by
  cases hline : move.isLine with
  | true => exact w.line_related (fun _ => .inl rfl) Handler.steps_builtin hline
  | false =>
      cases move with
      | change change now => exact w.drive.after_step change now
      | submit | submitFor | execute => cases hline

-- What every change of a drive preserves, every run preserves.
theorem run_drive {inv : Drive → Prop}
    (hstep : ∀ {d d' : Drive}, d.Step d' → inv d → inv d') {w : World} (hw : inv w.drive)
    (moves : List Move) : inv (w.run moves).drive := by
  induction moves generalizing w with
  | nil => exact hw
  | cons move rest ih => exact ih (hstep (w.step_drive move) hw)

-- A number that is given away is not on the drive yet.
def Fresh (w : World) : List Move → Prop
  | [] => True
  | move :: rest =>
      ((w.step move).drive.nextId ≠ w.drive.nextId → w.drive.nextId ∉ w.drive.root.ids) ∧
        (w.step move).Fresh rest

section

variable {w : World} {moves : List Move}

theorem grounded_run (hr : w.drive.root.Grounded) (moves : List Move) :
    (w.run moves).drive.root.Grounded :=
  run_drive Drive.Step.grounded hr moves

theorem wellFormed_run (hr : w.drive.root.WellFormed) (hfresh : w.Fresh moves) :
    (w.run moves).drive.root.WellFormed := by
  induction moves generalizing w with
  | nil => exact hr
  | cons move rest ih => exact ih ((w.step_drive move).wellFormed hfresh.1 hr) hfresh.2

end

end World

end DesktopShell

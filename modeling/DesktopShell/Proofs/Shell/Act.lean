import DesktopShell.Drive.Stock
import DesktopShell.Proofs.Shell.Effect

namespace DesktopShell

-- A line that is submitted to a session with the built-in commands, and how long whoever submits it
-- waits for what it shows, if not until the end.
structure Submission where
  line : String
  clock : Clock
  patience : Option Nat

-- What can happen to a session: a line is submitted or run without being shown, the session is
-- reset, or others change the drive or open windows.
inductive Act
  | submit (submission : Submission)
  | execute (line : String) (clock : Clock)
  | reset
  | others (drive : Drive) (windows : Option Nat)

-- Whether a line is run.
def Act.isLine : Act → Bool
  | .submit _ | .execute .. => true
  | .reset | .others .. => false

namespace Scene

def receive (s : Scene) (submission : Submission) : Scene :=
  match submission.patience with
  | none => s.submit Registry.builtin submission.clock submission.line
  | some patience => s.submitFor Registry.builtin submission.clock submission.line patience

def perform (s : Scene) : Act → Scene
  | .submit submission => s.receive submission
  | .execute line clock => (s.execute Registry.builtin clock line).1
  | .reset => s.reset
  | .others drive windows => { s with drive, windows }

def performAll (s : Scene) (acts : List Act) : Scene :=
  acts.foldl perform s

theorem performAll_snoc (s : Scene) (acts : List Act) (act : Act) :
    s.performAll (acts ++ [act]) = (s.performAll acts).perform act := by
  unfold performAll
  rw [List.foldl_append]
  rfl

-- However long the wait, all that is left to do once a line has been run is to show.
theorem echoed_receive (s : Scene) (submission : Submission) :
    (s.start Registry.builtin submission.clock submission.line).1.Echoed (s.receive submission) := by
  unfold receive
  split
  · exact echoed_flush _
  · exact echoed_deliver _ _

theorem receive_of_idle {s : Scene} {submission : Submission}
    (hidle : (s.start Registry.builtin submission.clock submission.line).1.session.pending = []) :
    s.receive submission = (s.start Registry.builtin submission.clock submission.line).1 := by
  unfold receive
  split
  · exact flush_of_idle hidle
  · exact deliver_of_idle hidle _

theorem receive_of_ok {s s' : Scene} {submission : Submission} {outcome : Outcome}
    (h : (s.ready submission.line).execute Registry.builtin submission.clock submission.line =
      (s', .ok outcome)) :
    (s'.setEffect (outcome.effectAfter s'.session.effect)).Echoed (s.receive submission) := by
  have hstart := s.echoed_receive submission
  rw [start_fst, h] at hstart
  exact (s'.echoed_apply outcome).trans hstart

theorem receive_of_error {s s' : Scene} {submission : Submission} {failure : Failure}
    (h : (s.ready submission.line).execute Registry.builtin submission.clock submission.line =
      (s', .error failure)) : s'.Echoed (s.receive submission) := by
  have hstart := s.echoed_receive submission
  rw [start_fst, h] at hstart
  exact (s'.echoed_print (.error failure.message)).trans hstart

theorem receive_related {α : Type} {view : Scene → α} (hview : Blind view) {R : α → α → Prop}
    (hsame : ∀ a, R a a)
    (hcall : ∀ command ∈ Registry.builtin, ∀ (call : Call) (scene : Scene),
      R (view scene) (view (command.handler call scene).scene))
    (s : Scene) (submission : Submission) : R (view s) (view (s.receive submission)) := by
  rw [hview.echoed (s.echoed_receive submission)]
  exact s.start_related hview hsame hcall submission.clock submission.line

-- What every call of a command does to the drive, every line does, however it is run.
theorem line_related {R : Drive → Drive → Prop} (hsame : ∀ d, R d d)
    (hcall : ∀ command ∈ Registry.builtin, ∀ (call : Call) (scene : Scene),
      R scene.drive (command.handler call scene).scene.drive)
    (s : Scene) (act : Act) (hline : act.isLine = true) : R s.drive (s.perform act).drive := by
  cases act with
  | submit submission => exact receive_related blind_drive hsame hcall s submission
  | execute line clock => exact s.execute_related drive hsame hcall clock line
  | reset | others => cases hline

-- A guest before anything has happened.
def guest : Scene :=
  ⟨.make .default, .stock .epoch 1, some 0, []⟩

end Scene

end DesktopShell

import DesktopShell.Proofs.Shell.Call
import DesktopShell.Proofs.World.Crash

namespace DesktopShell

namespace World

open Launch

variable {w : World} {moves : List Move} {s : Scene}

-- On every drive that can come about, whoever is there and wherever, `run` either finds nothing, or
-- it finds one target, and then it opens the window that is made for it, if there is one.
theorem launches_run (start : w.drive.Pristine)
    (reached : s.drive.root = (w.run moves).drive.root) {last : Nat} (hosted : s.windows = some last)
    {line t : String} (named : (CommandLine.parse line).name ∈ ["run", "start", "open"])
    (operand : (CommandLine.parse line).firstArg? = some t) (clock : Clock) :
    Launches s last (CommandLine.parse line).name t (s.execute Registry.builtin clock line) := by
  have hr : s.drive.root.Labelled := by
    rw [reached]
    exact labelled_run start moves
  have hrun : Registry.run ∈ Registry.builtin := by simp [Registry.builtin]
  have hnames : Registry.names Registry.run = ["run", "start", "open"] := rfl
  rw [← hnames] at named
  rw [s.execute_of_name hrun named]
  let call : Call := ⟨CommandLine.parse line, Registry.builtin.catalog, clock⟩
  have harg : call.line.firstArg? = some t := operand
  rcases search_cases call.name t hr with ⟨habsent, hsearch⟩ |
    ⟨⟨x, hdenotes, hno⟩, hsearch⟩ | ⟨target, content, hdenotes, hshows, hsearch⟩
  · rw [call_run_of_failed harg hsearch]
    exact launches_absent habsent
  · rw [call_run_of_failed harg hsearch]
    exact launches_unsupported hdenotes hno
  · rw [call_run_of_opening harg hosted hsearch]
    exact launches_opening hdenotes hshows

-- A shortcut whose text, apart from blanks, is another name of an application.
def doodle : List Move :=
  [.change (.create (.text " PBRUSH\n") "/" "doodle.lnk") Moment.epoch]

def artist : Scene :=
  ⟨.make .default, (guests.run doodle).drive, some 4, []⟩

theorem launches_run_doodle :
    let line := "Open /doodle.lnk --now"
    let result := artist.execute Registry.builtin ⟨Moment.epoch, Moment.epoch⟩ line
    (guests.drive.Pristine ∧ artist.drive.root = (guests.run doodle).drive.root ∧
        artist.windows = some 4 ∧ (CommandLine.parse line).name ∈ ["run", "start", "open"] ∧
        (CommandLine.parse line).firstArg? = some "/doodle.lnk") ∧
      Launches artist 4 (CommandLine.parse line).name "/doodle.lnk" result ∧
      result.2 = .ok (.ofLine (.success "Started Paint (window 5)")) := by
  intro line result
  have hstart : guests.drive.Pristine := ⟨Moment.epoch, 1, .inr rfl⟩
  have hreached : artist.drive.root = (guests.run doodle).drive.root := rfl
  have hnamed : (CommandLine.parse line).name ∈ ["run", "start", "open"] := by decide +kernel
  have hoperand : (CommandLine.parse line).firstArg? = some "/doodle.lnk" := by decide +kernel
  have hresult : result.2 = .ok (.ofLine (.success "Started Paint (window 5)")) := by decide +kernel
  exact ⟨⟨hstart, hreached, rfl, hnamed, hoperand⟩,
    launches_run hstart hreached rfl hnamed hoperand _, hresult⟩

end World

end DesktopShell

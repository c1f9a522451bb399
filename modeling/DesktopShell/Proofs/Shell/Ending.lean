import DesktopShell.Proofs.Shell.Effect
import DesktopShell.Proofs.Shell.Launch

namespace DesktopShell

-- A call that ends properly has not crashed, and it does not pass for one that has.
inductive Ending.Proper : Ending → Prop
  | done (outcome : Outcome) : Proper (.done outcome)
  | failed {failure : Failure} (external : ∀ name, failure ≠ .internal name) :
      Proper (.failed failure)

theorem Ending.not_proper_crashed : ¬Ending.crashed.Proper := nofun

theorem Ending.not_proper_internal (name : String) : ¬(Ending.failed (.internal name)).Proper := by
  intro h
  cases h with
  | failed external => exact external name rfl

namespace Handler

variable (call : Call) (scene : Scene)

theorem proper_changeFolder : (Browse.changeFolder call scene).ending.Proper := by
  unfold Browse.changeFolder
  split
  · exact .done _
  · split
    · exact .failed nofun
    · split
      · exact .done _
      · exact .failed nofun

theorem proper_list : (Browse.list call scene).ending.Proper := by
  unfold Browse.list
  simp only
  split
  · exact .failed nofun
  · split
    · exact .done _
    · split <;> exact .done _

theorem proper_showText : (Browse.showText call scene).ending.Proper := by
  unfold Browse.showText
  split
  · exact .failed nofun
  · split
    · exact .failed nofun
    · simp only
      split
      · exact .failed nofun
      · split
        · exact .failed nofun
        · split <;> exact .done _

theorem proper_create (what : NewItem) (usage done : String) :
    (Alter.create what usage done call scene).ending.Proper := by
  unfold Alter.create
  split
  · exact .failed nofun
  · simp only
    split
    · exact .failed nofun
    · split
      · exact .failed nofun
      · split
        · exact .failed nofun
        · split
          · exact .failed nofun
          · split
            · exact .failed nofun
            · split
              · exact .failed nofun
              · exact .done _

theorem proper_remove : (Alter.remove call scene).ending.Proper := by
  unfold Alter.remove
  split
  · exact .failed nofun
  · split
    · exact .failed nofun
    · split
      · exact .failed nofun
      · split
        · exact .failed nofun
        · exact .done _

theorem proper_connect : (Mainframe.connect call scene).ending.Proper := by
  unfold Mainframe.connect
  split <;> exact .done _

theorem proper_readFile (name : String) : (Mainframe.readFile name call scene).ending.Proper := by
  unfold Mainframe.readFile
  split
  · exact .done _
  · exact .failed nofun

theorem proper_runProgram (name : String) :
    (Mainframe.runProgram name call scene).ending.Proper := by
  unfold Mainframe.runProgram
  split
  · exact .done _
  · exact .failed nofun

theorem proper_hack : (Mainframe.hack call scene).ending.Proper := by
  unfold Mainframe.hack
  split
  · exact proper_connect call scene
  · split
    · exact .failed nofun
    · simp only
      split
      · split
        · exact .failed nofun
        · exact proper_readFile call scene _
      · split
        · split
          · exact .failed nofun
          · exact proper_runProgram call scene _
        · split
          · exact .done _
          · exact .failed nofun

theorem proper_matrix : (Mainframe.matrix call scene).ending.Proper := by
  unfold Mainframe.matrix
  split <;> exact .done _

theorem proper_help : (Inform.help call scene).ending.Proper := by
  unfold Inform.help
  split
  · split
    · exact .done _
    · exact .failed nofun
  · exact .done _

variable {scene}

-- Nothing but a name that cannot be cut could make a command crash.
theorem proper_run (hr : scene.drive.root.Labelled) : (Launch.run call scene).ending.Proper := by
  cases harg : call.line.firstArg? with
  | none =>
      simp only [Launch.run, harg]
      exact .failed (by simp [Failure.missingOperand])
  | some target =>
      rcases Launch.search_cases call.name target hr with ⟨-, heq⟩ | ⟨-, heq⟩ | ⟨_, content, -, -, heq⟩
      · simp only [Launch.run, harg, heq]
        exact .failed (by simp)
      · simp only [Launch.run, harg, heq]
        exact .failed (by simp)
      · cases hopen : scene.open? (content.app.window content) with
        | none =>
            simp only [Launch.run, harg, heq, Launch.opening, hopen]
            exact .failed (by simp)
        | some opened =>
            simp only [Launch.run, harg, heq, Launch.opening, hopen]
            exact .done _

theorem proper_builtin (hr : scene.drive.root.Labelled) :
    ∀ command ∈ Registry.builtin, ∀ call : Call, (command.handler call scene).ending.Proper := by
  simp only [Registry.builtin, Registry.changeFolder, Registry.printFolder, Registry.list,
    Registry.makeFolder, Registry.makeFile, Registry.remove, Registry.showText, Registry.run,
    Registry.hack, Registry.matrix, Registry.help, Registry.clear, Registry.echo, Registry.history,
    Registry.whoAmI, Registry.date, Registry.version, List.forall_mem_cons]
  exact ⟨fun call => proper_changeFolder call scene, fun _ => .done _,
    fun call => proper_list call scene, fun call => proper_create call scene _ _ _,
    fun call => proper_create call scene _ _ _, fun call => proper_remove call scene,
    fun call => proper_showText call scene, fun call => proper_run call hr,
    fun call => proper_hack call scene, fun call => proper_matrix call scene,
    fun call => proper_help call scene, fun _ => .done _, fun _ => .done _, fun _ => .done _,
    fun _ => .done _, fun _ => .done _, fun _ => .done _, List.forall_mem_nil _⟩

end Handler

-- A line whose command ends properly does not report a crash.
theorem Scene.execute_ne_internal {s : Scene} (hr : s.drive.root.Labelled) (clock : Clock)
    (line name : String) :
    (s.execute Registry.builtin clock line).2 ≠ .error (.internal name) := by
  unfold execute
  simp only
  split
  · simp
  · split
    · simp
    · next command hfind =>
        have hcommand := List.mem_of_find?_eq_some hfind
        have hproper := Handler.proper_builtin hr command hcommand
          ⟨CommandLine.parse line, Registry.builtin.catalog, clock⟩
        unfold call
        simp only
        split
        · simp
        · next failure hfailed =>
            rw [hfailed] at hproper
            intro h
            obtain rfl : failure = .internal name := Except.error.inj h
            exact Ending.not_proper_internal name hproper
        · next hcrashed =>
            rw [hcrashed] at hproper
            exact absurd hproper Ending.not_proper_crashed

end DesktopShell

import DesktopShell.Proofs.Drive.Commit
import DesktopShell.Proofs.Shell.Echo
import DesktopShell.Shell.Builtin

namespace DesktopShell

namespace Scene

variable (s : Scene)

theorem commit?_eq_some_iff {change : Change} {now : Moment} {item : Item} {s' : Scene} :
    s.commit? change now = some (item, s') ↔
      ∃ result, s.drive.commit? change now = some result ∧ item = result.subject ∧
        s' = { s with
          drive := result.drive
          log := s.log ++ (result.icon.map Event.icon).toList } := by
  unfold Scene.commit?
  rw [Option.map_eq_some_iff]
  simp only [Prod.mk.injEq, eq_comm]

theorem open?_eq_some_iff {window : Window} {id : Nat} {s' : Scene} :
    s.open? window = some (id, s') ↔
      ∃ last, s.windows = some last ∧ id = last + 1 ∧
        s' = { s with windows := some (last + 1), log := s.log ++ [.opened (last + 1) window] } := by
  unfold Scene.open?
  rw [Option.map_eq_some_iff]
  simp only [Prod.mk.injEq, eq_comm]

end Scene

namespace Alter

-- Either nothing is made, or the name is one that items may have and is free in the folder where it
-- was looked for, and the drive makes an item of that name where the path of that folder leads.
theorem create_cases (what : NewItem) (usage done : String) (call : Call) (scene : Scene) :
    (∃ failure, create what usage done call scene = scene.fail failure) ∨
      ∃ target checked item scene', call.line.firstArg? = some target ∧
        Path.isRoot (scene.locate target) = false ∧
        isValidName (Path.fileName (scene.locate target)) = true ∧
        scene.drive.find? (Path.parent (scene.locate target)) = some checked ∧
        checked.isFolder = true ∧ checked.child? (Path.fileName (scene.locate target)) = none ∧
        scene.commit? (.create what checked.path (Path.fileName (scene.locate target)))
          call.clock.now = some (item, scene') ∧
        create what usage done call scene =
          scene'.done (.ofLine (.success (done ++ item.name))) := by
  unfold create
  split
  · exact .inl ⟨_, rfl⟩
  · next target htarget =>
      simp only
      split
      · exact .inl ⟨_, rfl⟩
      · next hplace =>
          split
          · exact .inl ⟨_, rfl⟩
          · next hvalid =>
              split
              · exact .inl ⟨_, rfl⟩
              · next checked hchecked =>
                  split
                  · exact .inl ⟨_, rfl⟩
                  · next hfolder =>
                      split
                      · exact .inl ⟨_, rfl⟩
                      · next hfree =>
                          split
                          · exact .inl ⟨_, rfl⟩
                          · next item scene' hcommit =>
                              simp only [Bool.or_eq_true, not_or, Bool.not_eq_true] at hplace
                              exact .inr ⟨target, checked, item, scene', htarget, hplace.1,
                                by simpa using hvalid, hchecked, by simpa using hfolder,
                                by simpa using hfree, hcommit, rfl⟩

theorem remove_cases (call : Call) (scene : Scene) :
    (∃ failure, remove call scene = scene.fail failure) ∨
      ∃ path name item scene', scene.commit? (.delete path) call.clock.now = some (item, scene') ∧
        remove call scene = scene'.done (.ofLine (.success ("Deleted: " ++ name))) := by
  unfold remove
  split
  · exact .inl ⟨_, rfl⟩
  · split
    · exact .inl ⟨_, rfl⟩
    · split
      · exact .inl ⟨_, rfl⟩
      · split
        · exact .inl ⟨_, rfl⟩
        · next hcommit => exact .inr ⟨_, _, _, _, hcommit, rfl⟩

end Alter

namespace Handler

-- All that a built-in command can do, and how it ends: fail or crash and leave everything as it is,
-- have something to say, go to another folder, to the mainframe or back, change the drive once, or
-- open a window.
inductive Does (call : Call) (scene : Scene) : Reply → Prop
  | fails (failure : Failure) : Does call scene (scene.fail failure)
  | crashes : Does call scene ⟨scene, .crashed⟩
  | tells (outcome : Outcome) : Does call scene (scene.done outcome)
  | moves (path : String) : Does call scene ((scene.mapSession (·.setPath path)).done .nothing)
  | connects (outcome : Outcome) (away : scene.session.mode = .normal) :
      Does call scene ((scene.mapSession (·.enterHack Mainframe.address)).done outcome)
  | disconnects (outcome : Outcome) (there : scene.session.mode = .hack) :
      Does call scene ((scene.mapSession (·.exitHack.2)).done outcome)
  | creates (outcome : Outcome) {what : NewItem} {place : String} {checked item : Item}
      {scene' : Scene} (blank : what = .folder ∨ what = .text "")
      (below : Path.isRoot place = false) (valid : Alter.isValidName (Path.fileName place) = true)
      (found : scene.drive.find? (Path.parent place) = some checked)
      (free : checked.child? (Path.fileName place) = none)
      (made : scene.commit? (.create what checked.path (Path.fileName place)) call.clock.now =
        some (item, scene')) :
      Does call scene (scene'.done outcome)
  | removes (outcome : Outcome) {path : String} {item : Item} {scene' : Scene}
      (made : scene.commit? (.delete path) call.clock.now = some (item, scene')) :
      Does call scene (scene'.done outcome)
  | opens (outcome : Outcome) {window : Window} {id : Nat} {scene' : Scene}
      (opened : scene.open? window = some (id, scene')) : Does call scene (scene'.done outcome)

section Does

variable (call : Call) (scene : Scene)

theorem does_changeFolder : Does call scene (Browse.changeFolder call scene) := by
  unfold Browse.changeFolder
  split
  · exact .tells _
  · split
    · exact .fails _
    · split
      · exact .moves _
      · exact .fails _

theorem does_list : Does call scene (Browse.list call scene) := by
  unfold Browse.list
  simp only
  split
  · exact .fails _
  · split
    · exact .tells _
    · split <;> exact .tells _

theorem does_showText : Does call scene (Browse.showText call scene) := by
  unfold Browse.showText
  split
  · exact .fails _
  · split
    · exact .fails _
    · simp only
      split
      · exact .fails _
      · split
        · exact .fails _
        · split <;> exact .tells _

theorem does_run : Does call scene (Launch.run call scene) := by
  unfold Launch.run
  split
  · exact .fails _
  · split
    · exact .crashes
    · exact .fails _
    · split
      · exact .fails _
      · next hopen => exact .opens _ hopen

theorem does_connect : Does call scene (Mainframe.connect call scene) := by
  unfold Mainframe.connect
  split
  · exact .tells _
  · next haway => exact .connects _ haway

theorem does_readFile (name : String) : Does call scene (Mainframe.readFile name call scene) := by
  unfold Mainframe.readFile
  split
  · exact .tells _
  · exact .fails _

theorem does_runProgram (name : String) :
    Does call scene (Mainframe.runProgram name call scene) := by
  unfold Mainframe.runProgram
  split
  · exact .tells _
  · exact .fails _

theorem does_hack : Does call scene (Mainframe.hack call scene) := by
  unfold Mainframe.hack
  split
  · exact does_connect call scene
  · split
    · exact .fails _
    · next hthere =>
        simp only
        split
        · split
          · exact .fails _
          · exact does_readFile call scene _
        · split
          · split
            · exact .fails _
            · exact does_runProgram call scene _
          · split
            · exact .disconnects _ hthere
            · exact .fails _

theorem does_matrix : Does call scene (Mainframe.matrix call scene) := by
  unfold Mainframe.matrix
  split <;> exact .tells _

theorem does_help : Does call scene (Inform.help call scene) := by
  unfold Inform.help
  split
  · split
    · exact .tells _
    · exact .fails _
  · exact .tells _

theorem does_create {what : NewItem} (hblank : what = .folder ∨ what = .text "")
    (usage done : String) : Does call scene (Alter.create what usage done call scene) := by
  rcases Alter.create_cases what usage done call scene with ⟨failure, hfail⟩ |
    ⟨target, checked, item, scene', -, hbelow, hvalid, hfound, -, hfree, hcommit, hdone⟩
  · rw [hfail]
    exact .fails failure
  · rw [hdone]
    exact .creates _ hblank hbelow hvalid hfound hfree hcommit

theorem does_remove : Does call scene (Alter.remove call scene) := by
  rcases Alter.remove_cases call scene with ⟨failure, hfail⟩ | ⟨path, name, item, scene', hcommit, hdone⟩
  · rw [hfail]
    exact .fails failure
  · rw [hdone]
    exact .removes _ hcommit

end Does

theorem does_builtin : ∀ command ∈ Registry.builtin, ∀ (call : Call) (scene : Scene),
    Does call scene (command.handler call scene) := by
  simp only [Registry.builtin, Registry.changeFolder, Registry.printFolder, Registry.list,
    Registry.makeFolder, Registry.makeFile, Registry.remove, Registry.showText, Registry.run,
    Registry.hack, Registry.matrix, Registry.help, Registry.clear, Registry.echo, Registry.history,
    Registry.whoAmI, Registry.date, Registry.version, List.forall_mem_cons]
  refine ⟨does_changeFolder, fun _ _ => .tells _, does_list,
    fun call scene => does_create call scene (.inl rfl) _ _,
    fun call scene => does_create call scene (.inr rfl) _ _, does_remove, does_showText, does_run,
    does_hack, does_matrix, does_help, fun _ _ => .tells _, fun _ _ => .tells _,
    fun _ _ => .tells _, fun _ _ => .tells _, fun _ _ => .tells _, fun _ _ => .tells _, ?_⟩
  exact List.forall_mem_nil _

-- Only `mkdir`, `touch` and `rm` touch the drive, and they do it once at most.
theorem Does.drive_step {call : Call} {scene : Scene} {reply : Reply} (h : Does call scene reply) :
    scene.drive.Step reply.scene.drive := by
  cases h with
  | fails | crashes | tells | moves | connects | disconnects => exact .inl rfl
  | creates outcome blank below valid found free made =>
      obtain ⟨result, hresult, -, rfl⟩ := (Scene.commit?_eq_some_iff _).mp made
      exact .inr ⟨_, _, result, hresult, rfl⟩
  | removes outcome made =>
      obtain ⟨result, hresult, -, rfl⟩ := (Scene.commit?_eq_some_iff _).mp made
      exact .inr ⟨_, _, result, hresult, rfl⟩
  | opens outcome opened =>
      obtain ⟨last, -, -, rfl⟩ := (Scene.open?_eq_some_iff _).mp opened
      exact .inl rfl

-- All that a command can do to the session.
theorem Does.session_cases {call : Call} {scene : Scene} {reply : Reply}
    (h : Does call scene reply) :
    reply.scene.session = scene.session ∨
      (∃ path, reply.scene.session = scene.session.setPath path) ∨
      (scene.session.mode = .normal ∧
        reply.scene.session = scene.session.enterHack Mainframe.address) ∨
      (scene.session.mode = .hack ∧ reply.scene.session = scene.session.exitHack.2) := by
  cases h with
  | fails | crashes | tells => exact .inl rfl
  | moves path => exact .inr (.inl ⟨path, rfl⟩)
  | connects outcome away => exact .inr (.inr (.inl ⟨away, rfl⟩))
  | disconnects outcome there => exact .inr (.inr (.inr ⟨there, rfl⟩))
  | creates outcome blank below valid found free made =>
      obtain ⟨result, -, -, rfl⟩ := (Scene.commit?_eq_some_iff _).mp made
      exact .inl rfl
  | removes outcome made =>
      obtain ⟨result, -, -, rfl⟩ := (Scene.commit?_eq_some_iff _).mp made
      exact .inl rfl
  | opens outcome opened =>
      obtain ⟨last, -, -, rfl⟩ := (Scene.open?_eq_some_iff _).mp opened
      exact .inl rfl

theorem steps_builtin : ∀ command ∈ Registry.builtin, ∀ (call : Call) (scene : Scene),
    scene.drive.Step (command.handler call scene).scene.drive :=
  fun command hcommand call scene => (does_builtin command hcommand call scene).drive_step

end Handler

end DesktopShell

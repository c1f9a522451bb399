import DesktopShell.Cli.Run
import DesktopShell.Proofs.Cli.Input
import DesktopShell.Proofs.Shell.Pacing
import DesktopShell.Proofs.Shell.Room

namespace DesktopShell.Cli

theorem Place.text?_eq_some_iff {place : Place} {text : String} :
    place.text? = some text ↔ place = .file (Text.bytes text) := by
  cases place with
  | absent => simp [text?]
  | file bytes => rw [text?, Cli.text?_eq_some_iff, file.injEq]
  | unreadable => simp [text?]

-- What is read from a place is read from the text of a file.
theorem Place.read_eq_some_iff {ε α : Type} {place : Place} {read : String → Except ε α} {a : α} :
    (place.text?.bind fun text => (read text).toOption) = some a ↔
      ∃ text, place = .file (Text.bytes text) ∧ read text = .ok a := by
  have htoOption (e : Except ε α) : e.toOption = some a ↔ e = .ok a := by
    cases e <;> simp [Except.toOption]
  simp only [Option.bind_eq_some_iff, text?_eq_some_iff, htoOption]

-- The settings that a run asks for: those it has by default, or what the named file says.
inductive Configured (place : String → Place) : Option String → Settings → Prop
  | byDefault : Configured place none .default
  | named {path text : String} {settings : Settings} (holds : place path = .file (Text.bytes text))
      (valid : Settings.ofFile text = .ok settings) : Configured place (some path) settings

-- The drive that a run starts with: the stock, or what has been kept in the named file.
inductive Loaded (place : String → Place) (now : Moment) : Option String → Drive → Prop
  | unnamed : Loaded place now none (.stock now 1)
  | missing {path : String} (absent : place path = .absent) :
      Loaded place now (some path) (.stock now 1)
  | kept {path text : String} {drive : Drive} (holds : place path = .file (Text.bytes text))
      (accepted : Drive.ofSnapshot 1 text = .ok drive) : Loaded place now (some path) drive

section Load

variable {place : String → Place} {now : Moment} {options : Options} {settings : Settings}
  {drive : Drive}

theorem settings?_eq_some_iff :
    settings? place options = some settings ↔ Configured place options.config settings := by
  unfold settings?
  cases options.config with
  | none =>
      constructor
      · rintro ⟨⟩
        exact .byDefault
      · rintro ⟨⟩
        rfl
  | some path =>
      refine Place.read_eq_some_iff.trans ⟨?_, ?_⟩
      · rintro ⟨text, holds, valid⟩
        exact .named holds valid
      · rintro (_ | ⟨holds, valid⟩)
        exact ⟨_, holds, valid⟩

theorem drive?_eq_some_iff :
    drive? place now options = some drive ↔ Loaded place now options.snapshot drive := by
  unfold drive?
  cases options.snapshot with
  | none =>
      constructor
      · rintro ⟨⟩
        exact .unnamed
      · rintro ⟨⟩
        rfl
  | some path =>
      have hkept (hthere : place path ≠ .absent) :
          ((place path).text?.bind fun text => (Drive.ofSnapshot 1 text).toOption) =
            some drive ↔ Loaded place now (some path) drive := by
        refine Place.read_eq_some_iff.trans ⟨?_, ?_⟩
        · rintro ⟨text, holds, accepted⟩
          exact .kept holds accepted
        · rintro (_ | absent | ⟨holds, accepted⟩)
          · exact absurd absent hthere
          · exact ⟨_, holds, accepted⟩
      rw [Option.map_some]
      cases hplace : place path with
      | absent =>
          constructor
          · rintro ⟨⟩
            exact .missing hplace
          · rintro (_ | _ | ⟨holds, -⟩)
            · rfl
            · rw [hplace] at holds
              cases holds
      | file bytes =>
          rw [hplace] at hkept
          exact hkept nofun
      | unreadable =>
          rw [hplace] at hkept
          exact hkept nofun

theorem settings?_eq_none_iff :
    settings? place options = none ↔ ∀ settings, ¬ Configured place options.config settings := by
  rw [Option.eq_none_iff_forall_ne_some]
  exact forall_congr' fun settings => not_congr settings?_eq_some_iff

theorem drive?_eq_none_iff :
    drive? place now options = none ↔ ∀ drive, ¬ Loaded place now options.snapshot drive := by
  rw [Option.eq_none_iff_forall_ne_some]
  exact forall_congr' fun drive => not_congr drive?_eq_some_iff

end Load

-- A run gets as far as its first line.
def Starts (host : Host) (options : Options) : Prop :=
  ∃ settings drive, Configured host.place options.config settings ∧
    Loaded host.place (host.clock 0).now options.snapshot drive ∧ host.memory.HasRoom settings

-- There is no room for the session that a run would start with.
def Crashes (host : Host) (options : Options) (refusal : Ring.Refusal) : Prop :=
  ∃ settings drive, Configured host.place options.config settings ∧
    Loaded host.place (host.clock 0).now options.snapshot drive ∧
    host.memory.Lacks settings refusal

-- How a run ends that does not get as far as its first line.
inductive Halts (host : Host) (options : Options) : Nat → Prop
  | unconfigured (missing : ∀ settings, ¬ Configured host.place options.config settings) :
      Halts host options 1
  | unloaded (missing : ∀ drive, ¬ Loaded host.place (host.clock 0).now options.snapshot drive) :
      Halts host options 1
  | crashed {refusal : Ring.Refusal} (crashes : Crashes host options refusal) :
      Halts host options (crashCode refusal)

-- The lines that a run is given, and whether they could be read up to the last.
def Options.script (options : Options) (input : Bytes) : Script :=
  if options.commands = [] then .ofChunks (chunks input) else ⟨options.commands, true⟩

-- Lines that are submitted one at a time and waited for, the first at the given tick of the clock.
def submissions (clock : Nat → Clock) (tick : Nat) (lines : List String) : List Submission :=
  (lines.zipIdx tick).map fun p => ⟨p.1, clock p.2, none⟩

theorem play_eq (clock : Nat → Clock) (tick : Nat) (scene : Scene) (lines : List String) :
    play clock tick scene lines = scene.receiveAll (submissions clock tick lines) := by
  induction lines generalizing tick scene with
  | nil => rfl
  | cons line lines ih => exact ih (tick + 1) _

theorem starts_or_halts (host : Host) (options : Options) :
    Starts host options ∨ ∃ code, Halts host options code := by
  by_cases hsettings : ∃ settings, Configured host.place options.config settings
  · by_cases hdrive : ∃ drive, Loaded host.place (host.clock 0).now options.snapshot drive
    · obtain ⟨settings, hsettings⟩ := hsettings
      obtain ⟨drive, hdrive⟩ := hdrive
      rcases host.memory.hasRoom_or_lacks settings with hroom | ⟨refusal, hlacks⟩
      · exact .inl ⟨settings, drive, hsettings, hdrive, hroom⟩
      · exact .inr ⟨_, .crashed ⟨settings, drive, hsettings, hdrive, hlacks⟩⟩
    · exact .inr ⟨1, .unloaded (not_exists.mp hdrive)⟩
  · exact .inr ⟨1, .unconfigured (not_exists.mp hsettings)⟩

theorem opening?_of_hasRoom {memory : Memory} {settings : Settings}
    (h : memory.HasRoom settings) (drive : Drive) :
    opening? memory settings drive = .ok (opening settings drive) := by
  rw [opening?, Session.make?_of_hasRoom h]
  rfl

theorem opening?_of_lacks {memory : Memory} {settings : Settings} {refusal : Ring.Refusal}
    (h : memory.Lacks settings refusal) (drive : Drive) :
    opening? memory settings drive = .error refusal := by
  rw [opening?, Session.make?_of_lacks h]
  rfl

section Perform

variable (host : Host) (options : Options)

theorem perform_of_halts {code : Nat} (h : Halts host options code) :
    perform host options = ⟨code, "", none⟩ := by
  cases h with
  | unconfigured hnone => rw [perform, settings?_eq_none_iff.mpr hnone]
  | unloaded hnone =>
      rw [perform, drive?_eq_none_iff.mpr hnone]
      cases settings? host.place options <;> rfl
  | crashed hcrashes =>
      obtain ⟨settings, drive, hsettings, hdrive, hlacks⟩ := hcrashes
      rw [perform, settings?_eq_some_iff.mpr hsettings, drive?_eq_some_iff.mpr hdrive]
      dsimp only
      rw [opening?_of_lacks hlacks]

theorem perform_eq {settings : Settings} {drive : Drive} {script : Script}
    (hsettings : Configured host.place options.config settings)
    (hdrive : Loaded host.place (host.clock 0).now options.snapshot drive)
    (hroom : host.memory.HasRoom settings) (hscript : options.script host.input = script) :
    perform host options =
      let scene := (opening settings drive).receiveAll (submissions host.clock 1 script.lines)
      let good := script.isSound && options.snapshot.all host.canWrite
      { code := if good then 0 else 1
        output := (if options.commands = [] then bannerText else "") ++
          String.join (scene.log.map printed)
        saved := if good then options.snapshot.map fun _ => scene.drive.snapshot else none } := by
  rw [Options.script] at hscript
  rw [perform, settings?_eq_some_iff.mpr hsettings, drive?_eq_some_iff.mpr hdrive]
  dsimp only
  rw [opening?_of_hasRoom hroom]
  dsimp only
  rw [play_eq, hscript]
  cases script.isSound && options.snapshot.all host.canWrite <;> rfl

end Perform

-- A host without any files.
def bareHost (input : Bytes) : Host :=
  ⟨fun _ => .absent, fun _ => true, input, fun _ => ⟨.epoch, .epoch⟩, .ample⟩

-- Nothing is asked for but to keep the drive.
def keeping : Options := ⟨none, some "drive.json", []⟩

theorem not_crashes_bareHost (input : Bytes) (refusal : Ring.Refusal) :
    ¬ Crashes (bareHost input) keeping refusal := by
  rintro ⟨settings, drive, ⟨⟩, -, hlacks⟩
  exact Session.not_lacks_of_hasRoom Memory.hasRoom_ample_default hlacks

end DesktopShell.Cli

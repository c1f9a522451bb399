import DesktopShell.Proofs.Cli.Perform

namespace DesktopShell.Cli

-- What is in the place of the drive's file once a run is over.
def Finish.leaves (finish : Finish) (before : Place) : Place :=
  match finish.saved with
  | none => before
  | some text => .file (Text.bytes text)

-- What spoils a run: its settings or its drive cannot be had, or what it reads is not all text.
inductive Spoiled (host : Host) (options : Options) : Prop
  | settings {path : String} (named : options.config = some path)
      (invalid : ∀ text settings, host.place path = .file (Text.bytes text) →
        Settings.ofFile text ≠ .ok settings)
  | drive {path : String} (named : options.snapshot = some path) (there : host.place path ≠ .absent)
      (rejected : ∀ text drive, host.place path = .file (Text.bytes text) →
        Drive.ofSnapshot 1 text ≠ .ok drive)
  | input {chunk : Bytes} (bare : options.commands = []) (reached : chunk ∈ heard host.input)
      (garbled : ∀ text, chunk ≠ Text.bytes text)

-- The lines that a run is given: those of its arguments, or else those on its input.
inductive Given (host : Host) (options : Options) : List String → Prop
  | asked (nonempty : options.commands ≠ []) : Given host options options.commands
  | heard {lines : List String} (bare : options.commands = [])
      (texts : List.Forall₂ (fun chunk line => hear chunk = .line line) (heard host.input) lines) :
      Given host options lines

section Keep

variable {host : Host} {options : Options} {settings : Settings} {drive : Drive}

theorem exists_configured (h : ¬ Spoiled host options) :
    ∃ settings, Configured host.place options.config settings := by
  cases hconfig : options.config with
  | none => exact ⟨_, .byDefault⟩
  | some path =>
      by_contra hnone
      exact h (.settings hconfig fun text settings holds valid => hnone ⟨_, .named holds valid⟩)

theorem exists_loaded (h : ¬ Spoiled host options) :
    ∃ drive, Loaded host.place (host.clock 0).now options.snapshot drive := by
  cases hsnapshot : options.snapshot with
  | none => exact ⟨_, .unnamed⟩
  | some path =>
      by_contra hnone
      exact h (.drive hsnapshot (fun absent => hnone ⟨_, .missing absent⟩)
        fun text drive holds accepted => hnone ⟨_, .kept holds accepted⟩)

theorem isSound_script_iff : (options.script host.input).isSound = true ↔
    ∀ chunk, options.commands = [] → chunk ∈ heard host.input →
      ∃ text, chunk = Text.bytes text := by
  unfold Options.script
  split
  · next bare =>
      rw [isSound_ofChunks]
      refine forall_congr' fun chunk => ?_
      rw [imp_iff_right bare, Ne, hear_eq_garbled_iff, not_forall_not]
      rfl
  · next nonempty => simp [nonempty]

theorem given_script (h : (options.script host.input).isSound = true) :
    Given host options (options.script host.input).lines := by
  unfold Options.script at h ⊢
  split at h
  · next bare =>
      rw [if_pos bare]
      exact .heard bare (lines_ofChunks h)
  · next nonempty =>
      rw [if_neg nonempty]
      exact .asked nonempty

-- A run is spoiled exactly when it lacks its settings or its drive or does not hear out its input.
theorem not_spoiled_iff : ¬ Spoiled host options ↔
    (∃ settings, Configured host.place options.config settings) ∧
      (∃ drive, Loaded host.place (host.clock 0).now options.snapshot drive) ∧
      (options.script host.input).isSound = true := by
  constructor
  · intro h
    refine ⟨exists_configured h, exists_loaded h, ?_⟩
    refine isSound_script_iff.mpr fun chunk bare reached => ?_
    by_contra hnone
    exact h (.input bare reached fun text he => hnone ⟨text, he⟩)
  · rintro ⟨⟨settings, hsettings⟩, ⟨drive, hdrive⟩, hsound⟩
      (⟨named, invalid⟩ | ⟨named, there, rejected⟩ | ⟨bare, reached, garbled⟩)
    · rw [named] at hsettings
      obtain _ | ⟨holds, valid⟩ := hsettings
      exact invalid _ _ holds valid
    · rw [named] at hdrive
      obtain _ | absent | ⟨holds, accepted⟩ := hdrive
      · exact there absent
      · exact rejected _ _ holds accepted
    · obtain ⟨text, he⟩ := isSound_script_iff.mp hsound _ bare reached
      exact garbled text he

-- What is expected of a run that keeps its drive in a file. When it is spoiled, however late, it
-- leaves the file alone. Otherwise it puts there the tree that it has come to.
structure Keeps (host : Host) (options : Options) (file : String) (finish : Finish) : Prop where
  spoiled : Spoiled host options →
    finish.code = 1 ∧ finish.leaves (host.place file) = host.place file
  sound : ¬ Spoiled host options → ∃ settings drive lines,
    Configured host.place options.config settings ∧
    Loaded host.place (host.clock 0).now (some file) drive ∧
    Given host options lines ∧ finish.code = 0 ∧
    finish.leaves (host.place file) = .file (Text.bytes
      ((opening settings drive).receiveAll
        (submissions host.clock 1 lines)).drive.root.toJson.render)

theorem perform_of_spoiled (hstays : ∀ refusal, ¬ Crashes host options refusal)
    (h : Spoiled host options) :
    (perform host options).code = 1 ∧ (perform host options).saved = none := by
  rcases starts_or_halts host options with hstarts | ⟨code, hhalts⟩
  · obtain ⟨settings, drive, hsettings, hdrive, hroom⟩ := hstarts
    have hsound : (options.script host.input).isSound = false := by
      rw [Bool.eq_false_iff]
      exact fun hsound => not_spoiled_iff.mpr ⟨⟨_, hsettings⟩, ⟨_, hdrive⟩, hsound⟩ h
    rw [perform_eq host options hsettings hdrive hroom rfl]
    dsimp only
    rw [hsound]
    exact ⟨rfl, rfl⟩
  · rw [perform_of_halts host options hhalts]
    cases hhalts with
    | unconfigured => exact ⟨rfl, rfl⟩
    | unloaded => exact ⟨rfl, rfl⟩
    | crashed hcrashes => exact absurd hcrashes (hstays _)

theorem perform_of_sound {file : String} (hsettings : Configured host.place options.config settings)
    (hdrive : Loaded host.place (host.clock 0).now options.snapshot drive)
    (hroom : host.memory.HasRoom settings)
    (hsound : (options.script host.input).isSound = true) (named : options.snapshot = some file)
    (writable : host.canWrite file = true) :
    (perform host options).code = 0 ∧ (perform host options).saved = some
      ((opening settings drive).receiveAll (submissions host.clock 1
        (options.script host.input).lines)).drive.root.toJson.render := by
  have hgood : ((options.script host.input).isSound &&
      options.snapshot.all host.canWrite) = true := by
    rw [hsound, named]
    exact writable
  rw [perform_eq host options hsettings hdrive hroom rfl]
  dsimp only
  rw [hgood, named]
  exact ⟨rfl, rfl⟩

theorem keeps_perform {file : String} (named : options.snapshot = some file)
    (writable : host.canWrite file = true) (hstays : ∀ refusal, ¬ Crashes host options refusal) :
    Keeps host options file (perform host options) where
  spoiled hspoiled := by
    obtain ⟨hcode, hsaved⟩ := perform_of_spoiled hstays hspoiled
    rw [Finish.leaves, hsaved]
    exact ⟨hcode, rfl⟩
  sound hspoiled := by
    obtain ⟨⟨settings, hsettings⟩, ⟨drive, hdrive⟩, hsound⟩ := not_spoiled_iff.mp hspoiled
    have hroom : host.memory.HasRoom settings :=
      (host.memory.hasRoom_or_lacks settings).resolve_right fun ⟨refusal, hlacks⟩ =>
        hstays refusal ⟨settings, drive, hsettings, hdrive, hlacks⟩
    obtain ⟨hcode, hsaved⟩ := perform_of_sound hsettings hdrive hroom hsound named writable
    refine ⟨settings, drive, _, hsettings, named ▸ hdrive, given_script hsound, hcode, ?_⟩
    rw [Finish.leaves, hsaved]

-- A crash has a code of its own.
theorem one_lt_crashCode (refusal : Ring.Refusal) : 1 < crashCode refusal := by
  cases refusal <;> decide

theorem not_keeps_of_crashes {file : String} {refusal : Ring.Refusal}
    (h : Crashes host options refusal) : ¬ Keeps host options file (perform host options) := by
  have hcode : 1 < (perform host options).code := by
    rw [perform_of_halts host options (.crashed h)]
    exact one_lt_crashCode refusal
  intro hkeeps
  by_cases hspoiled : Spoiled host options
  · have hone := (hkeeps.spoiled hspoiled).1
    omega
  · obtain ⟨-, -, -, -, -, -, hzero, -⟩ := hkeeps.sound hspoiled
    omega

end Keep

-- A run keeps its drive in the file exactly when there is room for its session.
theorem run_keeps_iff {host : Host} {args : List String} {options : Options} {file : String}
    (asked : Request.ofArguments args = .run options) (named : options.snapshot = some file)
    (writable : host.canWrite file = true) :
    let finish := run host args
    (Keeps host options file finish ↔ ∀ refusal, ¬ Crashes host options refusal) ∧
      ∀ refusal, Crashes host options refusal →
        finish = ⟨crashCode refusal, "", none⟩ ∧
          finish.leaves (host.place file) = host.place file := by
  intro finish
  have hrun : finish = perform host options := by
    show run host args = _
    rw [run, asked]
  rw [hrun]
  refine ⟨⟨fun hkeeps refusal hcrashes => not_keeps_of_crashes hcrashes hkeeps,
    keeps_perform named writable⟩, fun refusal hcrashes => ?_⟩
  rw [perform_of_halts host options (.crashed hcrashes)]
  exact ⟨rfl, rfl⟩

-- A folder is made before the input goes wrong. One who has left by then does not notice.
theorem run_keeps_iff_notes :
    let spoilt := bareHost (typed ["mkdir notes"] ++ [0xff])
    let sound := bareHost (typed ["mkdir notes", " exit "] ++ [0xff])
    let args := ["-s", "drive.json"]
    let scene := (opening .default (.stock .epoch 1)).receiveAll
      (submissions (fun _ => ⟨.epoch, .epoch⟩) 1 ["mkdir notes"])
    (Request.ofArguments args = .run keeping ∧ keeping.snapshot = some "drive.json" ∧
      spoilt.canWrite "drive.json" = true ∧ sound.canWrite "drive.json" = true) ∧
    (Spoiled spoilt keeping ∧ Keeps spoilt keeping "drive.json" (run spoilt args) ∧
      (run spoilt args).code = 1 ∧ (run spoilt args).leaves .absent = .absent) ∧
    ¬ Spoiled sound keeping ∧ Keeps sound keeping "drive.json" (run sound args) ∧
      (run sound args).code = 0 ∧
      (run sound args).leaves .absent = .file (Text.bytes scene.drive.root.toJson.render) ∧
      (scene.drive.root.find? "/C:/Users/Guest/notes").isSome = true := by
  intro spoilt sound args scene
  have hasked : Request.ofArguments args = .run keeping := by decide
  have hspoiled : Spoiled spoilt keeping := by
    have hreached : [0xff] ∈ heard spoilt.input := by decide +kernel
    have hgarbled : text? [0xff] = none := by decide +kernel
    exact .input rfl hreached (text?_eq_none_iff.mp hgarbled)
  have hsound : ¬ Spoiled sound keeping :=
    not_spoiled_iff.mpr ⟨⟨_, .byDefault⟩, ⟨_, .missing rfl⟩, by decide +kernel⟩
  have hspoilt : Keeps spoilt keeping "drive.json" (run spoilt args) :=
    (run_keeps_iff hasked rfl rfl).1.mpr (not_crashes_bareHost _)
  have hkeeps : Keeps sound keeping "drive.json" (run sound args) :=
    (run_keeps_iff hasked rfl rfl).1.mpr (not_crashes_bareHost _)
  obtain ⟨settings, drive, lines, hsettings, hdrive, hlines, hcode, hleaves⟩ := hkeeps.sound hsound
  have hheard : heard sound.input = [Text.bytes "mkdir notes"] := by decide +kernel
  obtain ⟨⟩ := hsettings
  have hstock : drive = .stock .epoch 1 := by
    rcases hdrive with _ | _ | ⟨holds, -⟩
    · rfl
    · cases holds
  have hgiven : lines = ["mkdir notes"] := by
    rcases hlines with nonempty | ⟨-, texts⟩
    · exact absurd rfl nonempty
    · rw [hheard] at texts
      obtain _ | ⟨hline, ⟨⟩⟩ := texts
      have hplain : IsPlain "mkdir notes" := by decide
      rw [hplain.hear_bytes] at hline
      rw [Heard.line.inj hline]
  rw [hstock, hgiven] at hleaves
  exact ⟨⟨hasked, rfl, rfl, rfl⟩, ⟨hspoiled, hspoilt, hspoilt.spoiled hspoiled⟩, hsound, hkeeps,
    hcode, hleaves, by decide +kernel⟩

-- A host with one file, which sets a limit for the history.
def hoardingHost : Host :=
  { bareHost [] with
    place name :=
      if name = "shell.toml" then .file (Text.bytes "history_limit = 9223372036854775807")
      else .absent }

-- A limit that a file may set, but that no block of memory has places for.
theorem not_run_keeps_hoarding :
    let args := ["-c", "shell.toml", "-s", "drive.json", "-e", "mkdir notes"]
    let options : Options := ⟨some "shell.toml", some "drive.json", ["mkdir notes"]⟩
    (Request.ofArguments args = .run options ∧ hoardingHost.canWrite "drive.json" = true ∧
      ¬ Spoiled hoardingHost options) ∧
    run hoardingHost args = ⟨101, "", none⟩ ∧
      ¬ Keeps hoardingHost options "drive.json" (run hoardingHost args) := by
  intro args options
  have hasked : Request.ofArguments args = .run options := by decide
  have hholds : hoardingHost.place "shell.toml" =
      .file (Text.bytes "history_limit = 9223372036854775807") := rfl
  have hsettings : Configured hoardingHost.place options.config
      { Settings.default with historyLimit := 9223372036854775807 } := .named hholds rfl
  have hdrive : Loaded hoardingHost.place .epoch options.snapshot (.stock .epoch 1) := .missing rfl
  have hcrashes : Crashes hoardingHost options .overflow :=
    ⟨_, _, hsettings, hdrive, .history (.overflow (by decide))⟩
  have hrun : run hoardingHost args = perform hoardingHost options := by
    rw [run, hasked]
  rw [hrun]
  exact ⟨⟨hasked, rfl, not_spoiled_iff.mpr ⟨⟨_, hsettings⟩, ⟨_, hdrive⟩, rfl⟩⟩,
    perform_of_halts _ _ (.crashed hcrashes), not_keeps_of_crashes hcrashes⟩

end DesktopShell.Cli

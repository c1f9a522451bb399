import DesktopShell.Proofs.Shell.Act
import DesktopShell.Proofs.Shell.Call
import Mathlib.Data.List.Induction

namespace DesktopShell

theorem Manual.answersTo_congr {a b : String} (h : Text.sameIgnoringAsciiCase a b = true)
    (m : Manual) : m.answersTo a = m.answersTo b := by
  have hlower : a.toList.map Char.toLower = b.toList.map Char.toLower := by
    simpa [Text.sameIgnoringAsciiCase] using h
  simp only [Manual.answersTo, Text.sameIgnoringAsciiCase, hlower]

theorem Registry.find?_congr {a b : String} (h : Text.sameIgnoringAsciiCase a b = true)
    (registry : Registry) : registry.find? a = registry.find? b := by
  simp only [Registry.find?, Manual.answersTo_congr h]

-- Where a session is, and the way back that it remembers.
structure Stand where
  mode : Mode
  path : String
  way : Option String

-- What a command can do to where a session is: nothing but another path, go to the mainframe and
-- remember the path, or come back and remember none.
inductive Stand.Trip (a b : Stand) : Prop
  | stays (mode : b.mode = a.mode) (way : b.way = a.way)
  | leaves (away : a.mode = .normal) (there : b.mode = .hack) (way : b.way = some a.path)
  | returns (home : b.mode = .normal) (way : b.way = none)

namespace Session

-- A session that has come back to `path` from the mainframe.
def backAt (path : String) (s : Session) : Session :=
  { s with path, mode := .normal, values := s.values.erase returnPathKey }

theorem value?_enterHack (s : Session) (address : String) :
    (s.enterHack address).value? returnPathKey = some s.path := by
  show (s.values.set returnPathKey s.path).get? returnPathKey = some s.path
  rw [Table.get?_set, if_pos rfl]

theorem value?_backAt (s : Session) (path : String) :
    (s.backAt path).value? returnPathKey = none := by
  show (s.values.erase returnPathKey).get? returnPathKey = none
  rw [Table.get?_erase, if_pos rfl]

theorem exitHack_of_some {s : Session} {path : String} (h : s.value? returnPathKey = some path) :
    s.exitHack.2 = s.backAt path := by
  unfold exitHack
  rw [h]
  rfl

-- Whoever comes back is at home and remembers no way, even if there was none.
theorem exitHack_home (s : Session) :
    s.exitHack.2.mode = .normal ∧ s.exitHack.2.value? returnPathKey = none := by
  cases h : s.value? returnPathKey with
  | some path =>
      rw [exitHack_of_some h]
      exact ⟨rfl, s.value?_backAt path⟩
  | none =>
      unfold exitHack
      rw [h]
      exact ⟨rfl, h⟩

end Session

namespace Scene

open Session (returnPathKey)

def stand (s : Scene) : Stand :=
  ⟨s.session.mode, s.session.path, s.session.value? returnPathKey⟩

theorem blind_stand : Blind stand where
  echoed h := by
    unfold stand Session.value?
    rw [h.mode_eq, h.path_eq, h.values_eq]
  effect _ _ := rfl

end Scene

theorem Handler.Does.trip {call : Call} {scene : Scene} {reply : Reply}
    (h : Handler.Does call scene reply) : scene.stand.Trip reply.scene.stand := by
  unfold Scene.stand
  rcases h.session_cases with hsame | ⟨path, hpath⟩ | ⟨away, hthere⟩ | ⟨-, hhome⟩
  · rw [hsame]
    exact .stays rfl rfl
  · rw [hpath]
    exact .stays rfl rfl
  · rw [hthere]
    exact .leaves away rfl (scene.session.value?_enterHack Mainframe.address)
  · rw [hhome]
    obtain ⟨home, way⟩ := scene.session.exitHack_home
    exact .returns home way

namespace Scene

open Session (returnPathKey)

theorem perform_trip (s : Scene) (act : Act) : s.stand.Trip (s.perform act).stand := by
  have hsame (a : Stand) : a.Trip a := .stays rfl rfl
  have hcall : ∀ command ∈ Registry.builtin, ∀ (call : Call) (scene : Scene),
      scene.stand.Trip (command.handler call scene).scene.stand :=
    fun command hcommand call scene => (Handler.does_builtin command hcommand call scene).trip
  cases act with
  | submit submission => exact receive_related blind_stand hsame hcall s submission
  | execute line clock => exact s.execute_related stand hsame hcall clock line
  | reset => exact .returns rfl rfl
  | others drive windows => exact .stays rfl rfl

-- `start.LeftFrom acts path`: with the last of `acts` the session is at the mainframe, and when it
-- went there for the last time it came from `path`.
inductive LeftFrom (start : Scene) : List Act → String → Prop
  | leaves {acts : List Act} {act : Act} (away : (start.performAll acts).session.mode = .normal)
      (there : (start.performAll (acts ++ [act])).session.mode = .hack) :
      LeftFrom start (acts ++ [act]) (start.performAll acts).session.path
  | stays {acts : List Act} {act : Act} {path : String} (left : LeftFrom start acts path)
      (there : (start.performAll (acts ++ [act])).session.mode = .hack) :
      LeftFrom start (acts ++ [act]) path

-- A session is at home and remembers no way back, or it is at the mainframe and remembers the path
-- that it came from.
theorem stand_performAll (start : Scene) (hhome : start.session.mode = .normal)
    (hway : start.session.value? returnPathKey = none) (acts : List Act) :
    let s := start.performAll acts
    (s.session.mode = .normal ∧ s.session.value? returnPathKey = none) ∨
      (s.session.mode = .hack ∧
        ∃ path, s.session.value? returnPathKey = some path ∧ start.LeftFrom acts path) := by
  induction acts using List.reverseRecOn with
  | nil => exact .inl ⟨hhome, hway⟩
  | append_singleton acts act ih =>
      have htrip := (start.performAll acts).perform_trip act
      rw [← performAll_snoc] at htrip
      dsimp only at ih ⊢
      cases htrip with
      | stays mode way =>
          have hmode : (start.performAll (acts ++ [act])).session.mode =
            (start.performAll acts).session.mode := mode
          have hsame : (start.performAll (acts ++ [act])).session.value? returnPathKey =
            (start.performAll acts).session.value? returnPathKey := way
          rw [hmode, hsame]
          rcases ih with hat | ⟨hthere, path, hpath, hleft⟩
          · exact .inl hat
          · exact .inr ⟨hthere, path, hpath, .stays hleft (hmode.trans hthere)⟩
      | leaves away there way => exact .inr ⟨there, _, way, .leaves away there⟩
      | returns home way => exact .inl ⟨home, way⟩

end Scene

namespace Mainframe

-- A line that calls `hack` with these operands.
structure Calls (line : String) (args : List String) : Prop where
  name : Text.sameIgnoringAsciiCase (CommandLine.parse line).name "hack" = true
  args : (CommandLine.parse line).args = args

theorem find?_hack : Registry.builtin.find? "hack" = some Registry.hack := by
  rfl

theorem execute_eq {line : String} {args : List String} (h : Calls line args) (s : Scene)
    (clock : Clock) :
    s.execute Registry.builtin clock line =
      s.call Registry.hack ⟨CommandLine.parse line, Registry.builtin.catalog, clock⟩ :=
  s.execute_of_find? ((Registry.find?_congr h.name _).trans find?_hack) clock

section Operand

variable {line sub : String} {more : List String} (h : Calls line (sub :: more)) {s : Scene}

include h

theorem execute_away (haway : s.session.mode = .normal) (clock : Clock) :
    s.execute Registry.builtin clock line =
      (s, .error (.invalidArgument (CommandLine.parse line).name
        "not connected (run 'hack' first)")) := by
  rw [execute_eq h]
  simp only [Scene.call, Registry.hack, hack, h.args, haway, Scene.fail, Call.name]

theorem execute_exit (hsub : Text.lowercase sub = "exit") (hthere : s.session.mode = .hack)
    (clock : Clock) :
    s.execute Registry.builtin clock line =
      (s.mapSession (·.exitHack.2),
        .ok (Outcome.ofLines (farewell.map .info)).withoutEffect) := by
  have hcat : ¬("exit" = "cat") := by decide
  have hrun : ¬("exit" = "run") := by decide
  rw [execute_eq h]
  simp only [Scene.call, Registry.hack, hack, h.args, hthere, hsub, hcat, hrun, if_false, if_true,
    disconnect, Scene.done]

end Operand

end Mainframe

namespace Scene

open Session (returnPathKey)

-- A line that leads back to `path`, leaves nothing of the way there, and clears the effect when it
-- is submitted.
structure ComesBack (s : Scene) (line path : String) : Prop where
  executed : ∀ clock, ∃ outcome,
    s.execute Registry.builtin clock line = (s.mapSession (·.backAt path), .ok outcome)
  submitted : ∀ submission : Submission, submission.line = line →
    ((s.mapSession (·.backAt path)).setEffect none).Echoed (s.receive submission)

-- A line that fails and changes nothing.
structure Refuses (s : Scene) (line : String) : Prop where
  executed : ∀ clock, ∃ failure, s.execute Registry.builtin clock line = (s, .error failure)
  submitted : ∀ submission : Submission, submission.line = line → s.Echoed (s.receive submission)

theorem comesBack {s : Scene} {line sub path : String} {more : List String}
    (h : Mainframe.Calls line (sub :: more)) (hsub : Text.lowercase sub = "exit")
    (hthere : s.session.mode = .hack) (hway : s.session.value? returnPathKey = some path) :
    s.ComesBack line path := by
  have hexecute (t : Scene) (ht : s.Echoed t) (clock : Clock) :
      t.execute Registry.builtin clock line = (t.mapSession (·.backAt path),
        .ok (Outcome.ofLines (Mainframe.farewell.map .info)).withoutEffect) := by
    have hpath : t.session.value? returnPathKey = some path := by
      rw [Session.value?, ht.values_eq]
      exact hway
    rw [Mainframe.execute_exit h hsub (ht.mode_eq.trans hthere) clock, mapSession, mapSession,
      Session.exitHack_of_some hpath]
  constructor
  · intro clock
    exact ⟨_, hexecute s (.refl s) clock⟩
  · rintro submission rfl
    have hready := s.echoed_ready submission.line
    have hback : (s.mapSession (·.backAt path)).Echoed
        ((s.ready submission.line).mapSession (·.backAt path)) := by
      unfold Echoed at *
      rw [hready]
      rfl
    exact (echoed_setEffect _ hback none).trans
      (receive_of_ok (hexecute _ hready submission.clock))

theorem refuses {s : Scene} {line sub : String} {more : List String}
    (h : Mainframe.Calls line (sub :: more)) (haway : s.session.mode = .normal) :
    s.Refuses line := by
  constructor
  · intro clock
    exact ⟨_, Mainframe.execute_away h haway clock⟩
  · rintro submission rfl
    have hready := s.echoed_ready submission.line
    have hexecute := Mainframe.execute_away h (hready.mode_eq.trans haway) submission.clock
    exact hready.trans (receive_of_error hexecute)

-- However a session comes to where it is, it is at the mainframe exactly as long as it remembers a
-- way back, and that is the path it came from. So `hack exit` leads back there, and at home `hack`
-- takes no operand.
theorem mainframe_performAll (settings : Settings) (drive : Drive) (windows : Option Nat)
    (acts : List Act) :
    let start : Scene := ⟨.make settings, drive, windows, []⟩
    let s := start.performAll acts
    (s.session.mode = .hack ↔ (s.session.value? returnPathKey).isSome = true) ∧
      (s.session.mode = .hack → ∃ path, s.session.value? returnPathKey = some path ∧
        start.LeftFrom acts path ∧
        ∀ line sub more, Mainframe.Calls line (sub :: more) → Text.lowercase sub = "exit" →
          s.ComesBack line path) ∧
      (s.session.mode = .normal → ∀ line sub more, Mainframe.Calls line (sub :: more) →
        s.Refuses line) := by
  intro start s
  have hstand := stand_performAll start rfl rfl acts
  refine ⟨?_, ?_, fun haway line sub more h => refuses h haway⟩
  · rcases hstand with ⟨hhome, hway⟩ | ⟨hthere, path, hway, -⟩
    · exact iff_of_false (by rw [hhome]; simp) (by rw [hway]; simp)
    · exact iff_of_true hthere (by rw [hway]; rfl)
  · intro hthere
    rcases hstand with ⟨hhome, -⟩ | ⟨-, path, hway, hleft⟩
    · rw [hthere] at hhome
      cases hhome
    · exact ⟨path, hway, hleft, fun line sub more h hsub => comesBack h hsub hthere hway⟩

-- A guest who does not wait for the greeting, goes to another folder and tries to go twice.
def detour : List Act :=
  [ .execute "cd Documents" ⟨.epoch, .epoch⟩, .submit ⟨"hack", ⟨.epoch, .epoch⟩, some 20⟩,
    .submit ⟨"cd /C:/Windows", ⟨.epoch, .epoch⟩, none⟩, .execute "hack" ⟨.epoch, .epoch⟩,
    .submit ⟨"hack cat diary", ⟨.epoch, .epoch⟩, none⟩ ]

theorem mainframe_performAll_detour :
    (guest.performAll detour).ComesBack "HACK Exit now" "/C:/Users/Guest/Documents" ∧
      guest.Refuses "HACK Exit now" := by
  have hcalls : Mainframe.Calls "HACK Exit now" ["Exit", "now"] :=
    ⟨by decide +kernel, by decide +kernel⟩
  have hthere : (guest.performAll detour).session.mode = .hack := by decide +kernel
  have hfrom : (guest.performAll detour).session.value? returnPathKey =
      some "/C:/Users/Guest/Documents" := by decide +kernel
  have hsub : Text.lowercase "Exit" = "exit" := by decide +kernel
  obtain ⟨path, hway, -, hback⟩ :=
    (mainframe_performAll .default (.stock .epoch 1) (some 0) detour).2.1 hthere
  obtain rfl : "/C:/Users/Guest/Documents" = path := Option.some.inj (hfrom.symm.trans hway)
  exact ⟨hback _ _ _ hcalls hsub,
    (mainframe_performAll .default (.stock .epoch 1) (some 0) []).2.2 rfl _ _ _ hcalls⟩

end Scene

end DesktopShell

import DesktopShell.Shell.Submit

namespace DesktopShell

-- The effect that is on once an outcome has been applied.
def Outcome.effectAfter (outcome : Outcome) (old : Option Effect) : Option Effect :=
  match outcome.effect with
  | some (.set effect) => some effect
  | some .clear => none
  | none => old

namespace Scene

-- `s'` is `s` but for what has been shown, what is still to be shown, and which lines are
-- remembered.
def Echoed (s s' : Scene) : Prop :=
  s' = { s with
    session := { s.session with
      history := s'.session.history
      transcript := s'.session.transcript
      pending := s'.session.pending }
    log := s'.log }

namespace Echoed

theorem refl (s : Scene) : s.Echoed s := rfl

variable {s s' s'' : Scene}

theorem trans (h : s.Echoed s') (h' : s'.Echoed s'') : s.Echoed s'' := by
  unfold Echoed at *
  rw [h', h]

theorem drive_eq (h : s.Echoed s') : s'.drive = s.drive := by rw [h]

theorem windows_eq (h : s.Echoed s') : s'.windows = s.windows := by rw [h]

theorem settings_eq (h : s.Echoed s') : s'.session.settings = s.session.settings := by rw [h]

theorem path_eq (h : s.Echoed s') : s'.session.path = s.session.path := by rw [h]

theorem mode_eq (h : s.Echoed s') : s'.session.mode = s.session.mode := by rw [h]

theorem values_eq (h : s.Echoed s') : s'.session.values = s.session.values := by rw [h]

theorem effect_eq (h : s.Echoed s') : s'.session.effect = s.session.effect := by rw [h]

end Echoed

section Shown

variable (s : Scene)

theorem echoed_print (line : Line) : s.Echoed (s.print line) := rfl

theorem printAll_eq (lines : List Line) :
    s.printAll lines =
      { s with
        session := { s.session with transcript := s.session.transcript.extend lines }
        log := s.log ++ lines.map .shown } := by
  unfold printAll Ring.extend
  induction lines generalizing s with
  | nil => simp
  | cons line lines ih =>
      rw [List.foldl_cons, ih]
      simp [print, note, mapSession]

theorem echoed_printAll (lines : List Line) : s.Echoed (s.printAll lines) := by
  rw [printAll_eq]
  rfl

theorem echoed_clear : s.Echoed s.clear := rfl

theorem deliver_eq (n : Nat) :
    s.deliver n =
      { s with
        session := { s.session with
          transcript := s.session.transcript.extend (s.session.pending.take n)
          pending := s.session.pending.drop n }
        log := s.log ++ (s.session.pending.take n).map .shown } :=
  printAll_eq _ _

theorem echoed_deliver (n : Nat) : s.Echoed (s.deliver n) := by
  rw [deliver_eq]
  rfl

theorem echoed_flush : s.Echoed s.flush :=
  s.echoed_deliver _

theorem echoed_setEffect {s' : Scene} (h : s.Echoed s') (effect : Option Effect) :
    (s.setEffect effect).Echoed (s'.setEffect effect) := by
  unfold Echoed at *
  rw [h]
  rfl

-- Put lines behind those that are still to be shown.
def queue (lines : List Line) : Scene :=
  s.mapSession fun session => { session with pending := session.pending ++ lines }

theorem echoed_queue (lines : List Line) : s.Echoed (s.queue lines) := rfl

-- What an outcome asks for, one after the other: to wipe the transcript, to set the effect, and to
-- show its lines or queue them.
theorem apply_eq (outcome : Outcome) :
    s.apply outcome =
      let t := (if outcome.clear then s.clear else s).setEffect
        (outcome.effectAfter s.session.effect)
      if outcome.pace.getD 0 = 0 then t.printAll outcome.lines else t.queue outcome.lines := by
  obtain ⟨lines, clear, effect, pace⟩ := outcome
  unfold apply Outcome.effectAfter
  cases clear <;> rcases effect with _ | _ | _ <;> rcases pace with _ | _ | _ <;> rfl

theorem echoed_apply (outcome : Outcome) :
    (s.setEffect (outcome.effectAfter s.session.effect)).Echoed (s.apply outcome) := by
  have hclear : s.Echoed (if outcome.clear then s.clear else s) := by
    split
    · exact s.echoed_clear
    · exact .refl s
  rw [apply_eq]
  apply (s.echoed_setEffect hclear _).trans
  by_cases hpace : outcome.pace.getD 0 = 0
  · simp only [hpace, if_true]
    exact echoed_printAll _ _
  · simp only [hpace, if_false]
    exact echoed_queue _ _

-- With nothing pending there is nothing to show.
theorem deliver_of_idle {s : Scene} (hidle : s.session.pending = []) (n : Nat) : s.deliver n = s := by
  obtain ⟨⟨settings, path, mode, values, history, effect, transcript, pending⟩, drive, windows, log⟩ := s
  obtain rfl : pending = [] := hidle
  simp [deliver_eq, Ring.extend]

theorem flush_of_idle {s : Scene} (hidle : s.session.pending = []) : s.flush = s :=
  deliver_of_idle hidle _

end Shown

-- The scene in which a line is run that has been submitted.
def ready (s : Scene) (line : String) : Scene :=
  let s := s.flush
  let s := s.mapSession fun session => { session with history := session.history.record line }
  s.print (.command s.session.prompt line)

theorem echoed_ready (s : Scene) (line : String) : s.Echoed (s.ready line) :=
  s.echoed_flush.trans rfl

-- Show what has come of a line.
def conclude (s : Scene) : Except Failure Outcome → Scene
  | .ok outcome => s.apply outcome
  | .error failure => s.print (.error failure.message)

theorem start_fst (s : Scene) (registry : Registry) (clock : Clock) (line : String) :
    (s.start registry clock line).1 =
      let r := (s.ready line).execute registry clock line
      r.1.conclude r.2 := by
  unfold start ready
  dsimp only
  split <;> next h => rw [h]; rfl

-- A line is blank, or it names no command, or a command is called.
theorem execute_cases (s : Scene) (registry : Registry) (clock : Clock) (line : String) :
    s.execute registry clock line = (s, .ok .nothing) ∨
      (∃ failure, s.execute registry clock line = (s, .error failure)) ∨
      ∃ command ∈ registry, s.execute registry clock line =
        s.call command ⟨CommandLine.parse line, registry.catalog, clock⟩ := by
  unfold execute
  dsimp only
  split
  · exact .inl rfl
  · split
    · exact .inr (.inl ⟨_, rfl⟩)
    · next command hfind =>
        exact .inr (.inr ⟨command, List.mem_of_find?_eq_some hfind, rfl⟩)

theorem call_fst (s : Scene) (command : Command) (call : Call) :
    (s.call command call).1 = (command.handler call s).scene := by
  unfold Scene.call
  simp only
  split <;> rfl

section Related

-- What is shown makes no difference to a view of a scene.
structure Blind {α : Type} (view : Scene → α) : Prop where
  echoed : ∀ {s s' : Scene}, s.Echoed s' → view s' = view s
  effect : ∀ (s : Scene) (effect : Option Effect), view (s.setEffect effect) = view s

theorem blind_drive : Blind Scene.drive :=
  ⟨fun h => h.drive_eq, fun _ _ => rfl⟩

theorem Blind.conclude {α : Type} {view : Scene → α} (hview : Blind view) (s : Scene)
    (result : Except Failure Outcome) : view (s.conclude result) = view s := by
  cases result with
  | ok outcome => exact (hview.echoed (s.echoed_apply outcome)).trans (hview.effect _ _)
  | error failure => exact hview.echoed (s.echoed_print _)

-- A relation between what is seen before and after every call of a command.
variable {α : Type} {view : Scene → α} (hview : Blind view) {R : α → α → Prop} (hsame : ∀ a, R a a)
  {registry : Registry} (hcall : ∀ command ∈ registry, ∀ (call : Call) (scene : Scene),
    R (view scene) (view (command.handler call scene).scene))

variable (s : Scene) (clock : Clock) (line : String)

include hsame hcall

variable (view) in
theorem execute_related : R (view s) (view (s.execute registry clock line).1) := by
  rcases s.execute_cases registry clock line with h | ⟨failure, h⟩ | ⟨command, hcommand, h⟩
  · rw [h]
    exact hsame _
  · rw [h]
    exact hsame _
  · rw [h, call_fst]
    exact hcall command hcommand _ s

include hview

theorem start_related : R (view s) (view (s.start registry clock line).1) := by
  have hexecute := (s.ready line).execute_related view hsame hcall clock line
  rw [hview.echoed (s.echoed_ready line)] at hexecute
  rwa [start_fst, hview.conclude]

end Related

end Scene

end DesktopShell

import DesktopShell.Proofs.Drive.Stock
import DesktopShell.Proofs.Shell.Act
import DesktopShell.Proofs.Shell.Uniform

namespace DesktopShell

-- A command moves a session about and keeps values for it, and leaves all else alone.
def Session.Moved (s s' : Session) : Prop :=
  s' = { s with path := s'.path, mode := s'.mode, values := s'.values }

theorem Handler.Does.moved {call : Call} {scene : Scene} {reply : Reply}
    (h : Handler.Does call scene reply) : scene.session.Moved reply.scene.session := by
  rcases h.session_cases with hsame | ⟨path, hpath⟩ | ⟨-, hthere⟩ | ⟨-, hhome⟩
  · rw [hsame]
    rfl
  · rw [hpath]
    rfl
  · rw [hthere]
    rfl
  · rw [hhome]
    unfold Session.exitHack
    split <;> rfl

theorem Handler.Does.log {call : Call} {scene : Scene} {reply : Reply}
    (h : Handler.Does call scene reply) : scene.log <+: reply.scene.log := by
  cases h with
  | fails | crashes | tells | moves | connects | disconnects => exact List.prefix_rfl
  | creates outcome blank below valid found free made =>
      obtain ⟨result, -, -, rfl⟩ := (Scene.commit?_eq_some_iff _).mp made
      exact List.prefix_append _ _
  | removes outcome made =>
      obtain ⟨result, -, -, rfl⟩ := (Scene.commit?_eq_some_iff _).mp made
      exact List.prefix_append _ _
  | opens outcome opened =>
      obtain ⟨last, -, -, rfl⟩ := (Scene.open?_eq_some_iff _).mp opened
      exact List.prefix_append _ _

-- Events that are the same, or show lines that are alike.
inductive Event.Alike (T : Reading → Reading → Prop) : Event → Event → Prop
  | same (event : Event) : Alike T event event
  | shown {l l' : Line} (h : l.Alike T l') : Alike T (.shown l) (.shown l')

theorem Event.forall₂_same (T : Reading → Reading → Prop) (events : List Event) :
    List.Forall₂ (Event.Alike T) events events :=
  List.forall₂_same.mpr fun event _ => .same event

theorem Event.forall₂_shown {T : Reading → Reading → Prop} {lines lines' : List Line}
    (h : List.Forall₂ (Line.Alike T) lines lines') :
    List.Forall₂ (Event.Alike T) (lines.map .shown) (lines'.map .shown) := by
  rw [List.forall₂_map_left_iff, List.forall₂_map_right_iff]
  exact h.imp fun _ _ hline => .shown hline

theorem Session.Alike.prompt_eq {s s' : Session} (h : s.Alike s') : s'.prompt = s.prompt := by
  rw [prompt, prompt, h.mode, h.path]

namespace Scene

section Feed

variable (s : Scene)

-- What will have been noticed once all that is pending has been shown.
def feed : List Event :=
  s.log ++ s.session.pending.map .shown

theorem execute_moved (clock : Clock) (line : String) :
    s.session.Moved (s.execute Registry.builtin clock line).1.session :=
  s.execute_related session (R := Session.Moved) (fun _ => rfl)
    (fun command hcommand call scene => (Handler.does_builtin command hcommand call scene).moved)
    clock line

theorem feed_deliver (n : Nat) : (s.deliver n).feed = s.feed := by
  rw [deliver_eq, feed, feed, List.append_assoc, ← List.map_append, List.take_append_drop]

theorem flush_log : s.flush.log = s.feed := by
  rw [flush, deliver_eq, List.take_length]
  rfl

theorem flush_pending : s.flush.session.pending = [] := by
  rw [flush, deliver_eq, List.drop_length]

theorem feed_of_idle (hidle : s.session.pending = []) : s.feed = s.log := by
  rw [feed, hidle, List.map_nil, List.append_nil]

theorem feed_receive (submission : Submission) :
    (s.receive submission).feed =
      (s.start Registry.builtin submission.clock submission.line).1.feed := by
  unfold receive submit submitFor
  split <;> exact feed_deliver _ _

theorem pending_receive {submission : Submission} (hwaits : submission.patience = none) :
    (s.receive submission).session.pending = [] := by
  unfold receive
  rw [hwaits]
  exact flush_pending _

theorem history_receive (submission : Submission) :
    (s.receive submission).session.history =
      (s.start Registry.builtin submission.clock submission.line).1.session.history := by
  unfold receive submit submitFor
  split <;> simp only [flush, deliver_eq]

theorem ready_log (line : String) :
    (s.ready line).log = s.feed ++ [.shown (.command s.session.prompt line)] := by
  have hprompt : s.flush.session.prompt = s.session.prompt := by
    rw [flush, deliver_eq]
    rfl
  rw [← flush_log, ← hprompt]
  rfl

theorem ready_pending (line : String) : (s.ready line).session.pending = [] :=
  s.flush_pending

theorem ready_history (line : String) :
    (s.ready line).session.history = s.session.history.record line := by
  have hflush : s.flush.session.history = s.session.history := by
    rw [flush, deliver_eq]
  rw [← hflush]
  rfl

-- Paced or not, the lines of an outcome come next.
theorem feed_apply (hidle : s.session.pending = []) (outcome : Outcome) :
    (s.apply outcome).feed =
      s.log ++ ((if outcome.clear then [.cleared] else []) ++ outcome.lines.map .shown) := by
  have hclear : (if outcome.clear then s.clear else s).log =
      s.log ++ if outcome.clear then [.cleared] else [] := by
    cases outcome.clear <;> simp [clear, note, mapSession]
  have hpending : (if outcome.clear then s.clear else s).session.pending = [] := by
    cases outcome.clear <;> exact hidle
  rw [apply_eq, ← List.append_assoc, ← hclear]
  by_cases hpace : outcome.pace.getD 0 = 0
  · simp [hpace, printAll_eq, feed, setEffect, mapSession, hpending]
  · simp [hpace, queue, feed, setEffect, mapSession, hpending]

theorem history_apply (outcome : Outcome) :
    (s.apply outcome).session.history = s.session.history := by
  have hclear : (if outcome.clear then s.clear else s).session.history = s.session.history := by
    cases outcome.clear <;> rfl
  rw [apply_eq, ← hclear]
  by_cases hpace : outcome.pace.getD 0 = 0
  · simp [hpace, printAll_eq, setEffect, mapSession]
  · simp [hpace, queue, setEffect, mapSession]

theorem log_deliver (n : Nat) : s.log <+: (s.deliver n).log := by
  rw [deliver_eq]
  exact List.prefix_append _ _

theorem log_conclude (result : Except Failure Outcome) : s.log <+: (s.conclude result).log := by
  cases result with
  | error failure => exact List.prefix_append _ _
  | ok outcome =>
      have hclear : s.log <+: (if outcome.clear then s.clear else s).log := by
        split
        · exact List.prefix_append _ _
        · exact List.prefix_rfl
      rw [conclude, apply_eq]
      apply hclear.trans
      by_cases hpace : outcome.pace.getD 0 = 0
      · simp only [hpace, if_true, printAll_eq]
        exact List.prefix_append _ _
      · simp only [hpace, if_false]
        exact List.prefix_rfl

-- The first that is noticed of a line is what was still pending, and nothing is taken back.
theorem feed_prefix_receive (submission : Submission) : s.feed <+: (s.receive submission).log := by
  have hready : s.feed <+: (s.ready submission.line).log := by
    rw [ready_log]
    exact List.prefix_append _ _
  have hexecute := (s.ready submission.line).execute_related log (R := (· <+: ·))
    (fun _ => List.prefix_rfl)
    (fun command hcommand call scene => (Handler.does_builtin command hcommand call scene).log)
    submission.clock submission.line
  have hstart : (s.ready submission.line).log <+:
      (s.start Registry.builtin submission.clock submission.line).1.log := by
    rw [start_fst]
    exact hexecute.trans (log_conclude _ _)
  apply (hready.trans hstart).trans
  unfold receive submit submitFor
  split <;> exact log_deliver _ _

end Feed

theorem Alike.echoed {σ : Equiv.Perm ItemId} {s s' t t' : Scene} (h : s.Alike σ s')
    (hs : s.Echoed t) (hs' : s'.Echoed t') : t.Alike σ t' where
  session := by
    have hsession := h.session
    refine ⟨?_, ?_, ?_, ?_⟩
    · rw [hs.path_eq, hs'.path_eq, hsession.path]
    · rw [hs.mode_eq, hs'.mode_eq, hsession.mode]
    · rw [hs.values_eq, hs'.values_eq, hsession.values]
    · rw [hs.settings_eq, hs'.settings_eq, hsession.user]
  drive := by
    rw [hs.drive_eq, hs'.drive_eq]
    exact h.drive
  windows := by rw [hs.windows_eq, hs'.windows_eq, h.windows]

-- Two sessions that have come as far as each other, though one may have more to show yet.
structure InStep (T : Reading → Reading → Prop) (σ : Equiv.Perm ItemId) (s s' : Scene) : Prop where
  alike : s.Alike σ s'
  effect : s'.session.effect = s.session.effect
  history : s'.session.history = s.session.history
  feed : List.Forall₂ (Event.Alike T) s.feed s'.feed

namespace InStep

variable {T : Reading → Reading → Prop} {σ : Equiv.Perm ItemId} {s s' : Scene}
  (h : InStep T σ s s')

include h

theorem ready (line : String) : InStep T σ (s.ready line) (s'.ready line) where
  alike := h.alike.echoed (s.echoed_ready line) (s'.echoed_ready line)
  effect := by
    rw [(s.echoed_ready line).effect_eq, (s'.echoed_ready line).effect_eq, h.effect]
  history := by rw [ready_history, ready_history, h.history]
  feed := by
    rw [feed_of_idle _ (s.ready_pending line), feed_of_idle _ (s'.ready_pending line), ready_log,
      ready_log, h.alike.session.prompt_eq]
    exact List.rel_append h.feed (Event.forall₂_same T _)

variable (hidle : s.session.pending = []) (hidle' : s'.session.pending = [])

include hidle hidle'

theorem apply {o o' : Outcome} (ho : o.Alike T o') : InStep T σ (s.apply o) (s'.apply o') := by
  have heffect : o'.effectAfter s'.session.effect = o.effectAfter s.session.effect := by
    rw [Outcome.effectAfter, Outcome.effectAfter, ho.effect, h.effect]
  have hs := s.echoed_apply o
  have hs' := s'.echoed_apply o'
  refine ⟨?_, ?_, ?_, ?_⟩
  · have hset : (s.setEffect (o.effectAfter s.session.effect)).Alike σ
        (s'.setEffect (o'.effectAfter s'.session.effect)) := by
      obtain ⟨hsession, hdrive, hwindows⟩ := h.alike
      exact ⟨⟨hsession.path, hsession.mode, hsession.values, hsession.user⟩, hdrive, hwindows⟩
    exact hset.echoed hs hs'
  · rw [hs.effect_eq, hs'.effect_eq]
    exact heffect
  · rw [history_apply, history_apply, h.history]
  · rw [feed_apply s hidle, feed_apply s' hidle', ho.clear, ← feed_of_idle s hidle,
      ← feed_of_idle s' hidle']
    exact List.rel_append h.feed
      (List.rel_append (Event.forall₂_same T _) (Event.forall₂_shown ho.lines))

theorem print (line : Line) : InStep T σ (s.print line) (s'.print line) where
  alike := h.alike.echoed (s.echoed_print line) (s'.echoed_print line)
  effect := h.effect
  history := h.history
  feed := by
    have hfeed (t : Scene) (ht : t.session.pending = []) :
        (t.print line).feed = t.feed ++ [.shown line] := by
      have hprint : (t.print line).session.pending = [] := ht
      rw [feed_of_idle _ hprint, feed_of_idle t ht]
      rfl
    rw [hfeed s hidle, hfeed s' hidle']
    exact List.rel_append h.feed (Event.forall₂_same T _)

theorem conclude {r r' : Except Failure Outcome} (hresult : Result.Alike T True r r') :
    InStep T σ (s.conclude r) (s'.conclude r') := by
  cases hresult with
  | ok outcome => exact h.apply hidle hidle' (outcome trivial)
  | error failure => exact h.print hidle hidle' _

variable (hnext : σ s.drive.nextId = s'.drive.nextId)

include hnext

-- The two run one line, and then are still in step and have the same result.
theorem execute (clock clock' : Clock) (line : String) (htime : T clock.wall.val clock'.wall.val) :
    let r := s.execute Registry.builtin clock line
    let r' := s'.execute Registry.builtin clock' line
    InStep T σ r.1 r'.1 ∧ r.1.session.pending = [] ∧ r'.1.session.pending = [] ∧
      Result.Alike T True r.2 r'.2 ∧
      (s'.drive.nextId = s.drive.nextId → r'.1.drive.nextId = r.1.drive.nextId) := by
  intro r r'
  obtain ⟨⟨halike, ⟨new, hlog, hlog'⟩, hnew⟩, hresult⟩ :=
    h.alike.execute hnext clock clock' line htime
  have hmoved : s.session.Moved r.1.session := s.execute_moved clock line
  have hmoved' : s'.session.Moved r'.1.session := s'.execute_moved clock' line
  have hpending : r.1.session.pending = [] := by rw [hmoved, hidle]
  have hpending' : r'.1.session.pending = [] := by rw [hmoved', hidle']
  refine ⟨⟨halike, ?_, ?_, ?_⟩, hpending, hpending', ?_, hnew⟩
  · rw [hmoved, hmoved', h.effect]
  · rw [hmoved, hmoved', h.history]
  · rw [feed_of_idle _ hpending, feed_of_idle _ hpending', hlog, hlog', ← feed_of_idle s hidle,
      ← feed_of_idle s' hidle']
    exact List.rel_append h.feed (Event.forall₂_same T new)
  · rw [h.history] at hresult
    generalize r.2 = a at hresult ⊢
    generalize r'.2 = b at hresult ⊢
    cases hresult with
    | ok outcome => exact .ok fun _ => outcome rfl
    | error failure => exact .error failure

omit hidle hidle'

theorem start (clock clock' : Clock) (line : String) (htime : T clock.wall.val clock'.wall.val) :
    let r := (s.start Registry.builtin clock line).1
    let r' := (s'.start Registry.builtin clock' line).1
    InStep T σ r r' ∧ (s'.drive.nextId = s.drive.nextId → r'.drive.nextId = r.drive.nextId) := by
  intro r r'
  have hdrive := (s.echoed_ready line).drive_eq
  have hdrive' := (s'.echoed_ready line).drive_eq
  have hready : σ (s.ready line).drive.nextId = (s'.ready line).drive.nextId := by
    rw [hdrive, hdrive', hnext]
  obtain ⟨hstep, hidle, hidle', hresult, hnew⟩ := (h.ready line).execute (s.ready_pending line)
    (s'.ready_pending line) hready clock clock' line htime
  have hstart : r = _ := s.start_fst Registry.builtin clock line
  have hstart' : r' = _ := s'.start_fst Registry.builtin clock' line
  rw [hstart, hstart']
  refine ⟨hstep.conclude hidle hidle' hresult, fun hsame => ?_⟩
  rw [blind_drive.conclude, blind_drive.conclude]
  exact hnew (by rw [hdrive, hdrive', hsame])

-- Whoever waits for how long, the two are in step once the line has been submitted.
theorem receive {submission submission' : Submission} (hline : submission'.line = submission.line)
    (htime : T submission.clock.wall.val submission'.clock.wall.val) :
    InStep T σ (s.receive submission) (s'.receive submission') ∧
      (s'.drive.nextId = s.drive.nextId →
        (s'.receive submission').drive.nextId = (s.receive submission).drive.nextId) := by
  obtain ⟨line, clock, patience⟩ := submission
  obtain ⟨line', clock', patience'⟩ := submission'
  obtain rfl : line' = line := hline
  obtain ⟨hstep, hnew⟩ := h.start hnext clock clock' line' htime
  have hs := s.echoed_receive ⟨line', clock, patience⟩
  have hs' := s'.echoed_receive ⟨line', clock', patience'⟩
  refine ⟨⟨hstep.alike.echoed hs hs', ?_, ?_, ?_⟩, fun hsame => ?_⟩
  · rw [hs.effect_eq, hs'.effect_eq, hstep.effect]
  · rw [history_receive, history_receive, hstep.history]
  · rw [feed_receive, feed_receive]
    exact hstep.feed
  · rw [hs.drive_eq, hs'.drive_eq]
    exact hnew hsame

end InStep

def receiveAll (s : Scene) (submissions : List Submission) : Scene :=
  submissions.foldl receive s

-- The number for a new item is not on the drive yet, whenever a line is submitted.
def Fresh (s : Scene) : List Submission → Prop
  | [] => True
  | submission :: rest =>
      s.drive.nextId ∉ s.drive.root.ids ∧ (s.receive submission).Fresh rest

theorem Fresh.take {s : Scene} {submissions : List Submission} (h : s.Fresh submissions) (n : Nat) :
    s.Fresh (submissions.take n) := by
  induction submissions generalizing s n with
  | nil =>
      rw [List.take_nil]
      exact h
  | cons submission rest ih =>
      cases n with
      | zero => exact trivial
      | succ n => exact ⟨h.1, ih h.2 n⟩

-- As long as there are more numbers left than lines to come.
theorem fresh_of_room {s : Scene} {submissions : List Submission} (hr : s.drive.root.WellFormed)
    (hn : s.drive.Numbered)
    (hroom : s.drive.nextId.toNat + submissions.length < UInt64.size) : s.Fresh submissions := by
  induction submissions generalizing s with
  | nil => trivial
  | cons submission rest ih =>
      rw [List.length_cons] at hroom
      have hstep : s.drive.Step (s.receive submission).drive :=
        receive_related blind_drive (fun _ => .inl rfl) Handler.steps_builtin s submission
      obtain ⟨hn', hle⟩ := hstep.numbered_of_room hr hn (by omega)
      exact ⟨hn.nextId_notMem, ih (hstep.wellFormed (fun _ => hn.nextId_notMem) hr) hn' (by omega)⟩

-- The same lines with times that `T` lets correspond.
def Lockstep (T : Reading → Reading → Prop) (a b : Submission) : Prop :=
  b.line = a.line ∧ T a.clock.wall.val b.clock.wall.val

theorem inStep_receiveAll {T : Reading → Reading → Prop} {slow fast : List Submission}
    (hboth : List.Forall₂ (Lockstep T) slow fast) {σ : Equiv.Perm ItemId} {s s' : Scene}
    (h : InStep T σ s s')
    (hnumbers : (σ = 1 ∧ s'.drive.nextId = s.drive.nextId) ∨ (s.Fresh slow ∧ s'.Fresh fast)) :
    ∃ τ, InStep T τ (s.receiveAll slow) (s'.receiveAll fast) := by
  induction hboth generalizing σ s s' with
  | nil => exact ⟨σ, h⟩
  | @cons a b slow fast hab hrest ih =>
      rcases hnumbers with ⟨rfl, hsame⟩ | ⟨⟨hnew, hfresh⟩, hnew', hfresh'⟩
      · obtain ⟨hstep, hnext⟩ := h.receive hsame.symm hab.1 hab.2
        exact ih hstep (.inl ⟨rfl, hnext hsame⟩)
      · -- The next numbers are free on both sides, so that they can be made to correspond.
        obtain ⟨τ, hroot, hτ⟩ := h.alike.drive.root.exists_extension hnew hnew'
        have halike : s.Alike τ s' := ⟨h.alike.session, ⟨hroot, h.alike.drive.desktop⟩, h.alike.windows⟩
        have hinStep : InStep T τ s s' := ⟨halike, h.effect, h.history, h.feed⟩
        obtain ⟨hstep, -⟩ := hinStep.receive hτ hab.1 hab.2
        exact ih hstep (.inr ⟨hfresh, hfresh'⟩)

-- The same scene, but nothing is paced from now on, and new items are numbered from `next`.
def unpaced (s : Scene) (next : ItemId) : Scene :=
  { s with
    session := { s.session with settings := { s.session.settings with teletypeDelay := 0 } }
    drive := { s.drive with nextId := next } }

theorem inStep_unpaced (T : Reading → Reading → Prop) (s : Scene) (next : ItemId) :
    InStep T 1 s (s.unpaced next) where
  alike := ⟨⟨rfl, rfl, rfl, rfl⟩, ⟨.refl _, rfl⟩, rfl⟩
  effect := rfl
  history := rfl
  feed := Event.forall₂_same T _

-- Two sessions that show the same, up to the times that `date` prints, and do the same, up to numbers
-- and times of items.
structure Agrees (T : Reading → Reading → Prop) (s s' : Scene) : Prop where
  mode : s'.session.mode = s.session.mode
  path : s'.session.path = s.session.path
  values : s'.session.values = s.session.values
  effect : s'.session.effect = s.session.effect
  history : s'.session.history = s.session.history
  windows : s'.windows = s.windows
  tree : ∃ σ, s.drive.root.Alike σ s'.drive.root
  events : List.Forall₂ (Event.Alike T) s.flush.log s'.flush.log

theorem InStep.agrees {T : Reading → Reading → Prop} {σ : Equiv.Perm ItemId} {s s' : Scene}
    (h : InStep T σ s s') : s.Agrees T s' where
  mode := h.alike.session.mode
  path := h.alike.session.path
  values := h.alike.session.values
  effect := h.effect
  history := h.history
  windows := h.alike.windows
  tree := ⟨σ, h.alike.drive.root⟩
  events := by
    rw [flush_log, flush_log]
    exact h.feed

-- The times at which a line was submitted here and there.
def Times (slow fast : List Submission) (r r' : Reading) : Prop :=
  ∃ p ∈ slow.zip fast, r = p.1.clock.wall.val ∧ r' = p.2.clock.wall.val

theorem lockstep_times {slow fast : List Submission} (hsame : fast.map (·.line) = slow.map (·.line)) :
    List.Forall₂ (Lockstep (Times slow fast)) slow fast := by
  have hlines : List.Forall₂ (fun a b : Submission => a.line = b.line) slow fast := by
    have heq : List.Forall₂ (· = ·) (slow.map (·.line)) (fast.map (·.line)) := by
      rw [List.forall₂_eq_eq_eq, hsame]
    simpa only [List.forall₂_map_left_iff, List.forall₂_map_right_iff] using heq
  obtain ⟨hlength, hzip⟩ := List.forall₂_iff_zip.mp hlines
  exact List.forall₂_iff_zip.mpr ⟨hlength, fun hab => ⟨(hzip hab).symm, _, hab, rfl, rfl⟩⟩

theorem pending_receiveAll {s : Scene} {submissions : List Submission} (hne : submissions ≠ [])
    (hwaited : ∀ x ∈ submissions, x.patience = none) :
    (s.receiveAll submissions).session.pending = [] := by
  obtain ⟨front, last, rfl⟩ := (List.eq_nil_or_concat submissions).resolve_left hne
  rw [receiveAll, List.concat_eq_append, List.foldl_append]
  exact pending_receive _ (hwaited last (by simp))

-- However slowly a session shows what it has to show, and whoever stops waiting for it, it does and
-- shows the same as when nothing is paced. What is missing comes with the next line.
theorem agrees_unpaced (s : Scene) (slow fast : List Submission) (next : ItemId)
    (same : fast.map (·.line) = slow.map (·.line)) (waited : ∀ x ∈ fast, x.patience = none)
    (fresh : next = s.drive.nextId ∨ (s.Fresh slow ∧ (s.unpaced next).Fresh fast)) (n : Nat) :
    let t := s.receiveAll (slow.take n)
    let t' := (s.unpaced next).receiveAll (fast.take n)
    t.Agrees (Times slow fast) t' ∧ (fast.take n ≠ [] → t'.session.pending = []) ∧
      ∀ further, t.flush.log <+: (t.receive further).log ∧
        (further.patience = none → (t.receive further).session.pending = []) := by
  intro t t'
  have hboth := List.forall₂_take n (lockstep_times same)
  obtain ⟨τ, hstep⟩ := inStep_receiveAll hboth (inStep_unpaced _ s next)
    (fresh.imp (fun h => ⟨rfl, h⟩) fun ⟨h, h'⟩ => ⟨h.take n, h'.take n⟩)
  refine ⟨hstep.agrees, fun hne => ?_, fun further => ⟨?_, pending_receive t⟩⟩
  · exact pending_receiveAll hne fun x hx => waited x (List.mem_of_mem_take hx)
  · rw [flush_log]
    exact t.feed_prefix_receive further

-- A guest who does not wait for the greeting of the mainframe, and one who reads it all a day later.
def hurried : List Submission :=
  [ ⟨"hack", ⟨.epoch, .epoch⟩, some 250⟩, ⟨"hack exit", ⟨.epoch, .epoch⟩, none⟩,
    ⟨"mkdir notes", ⟨.epoch, .epoch⟩, some 0⟩, ⟨"date", ⟨.epoch, .epoch⟩, none⟩ ]

def dayLater : Moment := ⟨⟨1970, 1, 2, 0, 0, 0, 0⟩, by decide⟩

def patient : List Submission :=
  hurried.map fun x => ⟨x.line, ⟨dayLater, dayLater⟩, none⟩

theorem agrees_unpaced_hurried :
    patient.map (·.line) = hurried.map (·.line) ∧ (∀ x ∈ patient, x.patience = none) ∧
      guest.Fresh hurried ∧ (guest.unpaced 5000).Fresh patient ∧
      (guest.receiveAll (hurried.take 1)).session.pending.length = 4 ∧
      (guest.receiveAll hurried).Agrees (Times hurried patient)
        ((guest.unpaced 5000).receiveAll patient) := by
  have hr : guest.drive.root.WellFormed := Drive.wellFormed_stock .epoch 1
  have hn : guest.drive.Numbered := Layout.drive_above .epoch 1 Drive.stockLayout (by decide)
  have hnext : guest.drive.nextId = 27 := Drive.nextId_stock .epoch 1
  have hn' : (guest.unpaced 5000).drive.Numbered := by
    intro i hi
    have hlt : i < guest.drive.nextId := hn i hi
    rw [hnext] at hlt
    exact UInt64.lt_trans hlt (by decide)
  have hsame : patient.map (·.line) = hurried.map (·.line) := rfl
  have hwaited : ∀ x ∈ patient, x.patience = none := by
    intro x hx
    obtain ⟨y, -, rfl⟩ := List.mem_map.mp hx
    rfl
  have hfresh : guest.Fresh hurried := fresh_of_room hr hn (by rw [hnext]; decide)
  have hfresh' : (guest.unpaced 5000).Fresh patient := by
    apply fresh_of_room _ hn'
    · decide
    · exact hr
  have hagrees := agrees_unpaced guest hurried patient 5000 hsame hwaited (.inr ⟨hfresh, hfresh'⟩) 4
  exact ⟨hsame, hwaited, hfresh, hfresh', by decide +kernel, hagrees.1⟩

end Scene

end DesktopShell

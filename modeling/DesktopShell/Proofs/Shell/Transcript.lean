import DesktopShell.Proofs.Ring.Contents
import DesktopShell.Proofs.Shell.Act

namespace DesktopShell

namespace Event

def line? : Event → Option Line
  | .shown line => some line
  | .cleared | .opened .. | .icon _ => none

def isCleared : Event → Bool
  | .cleared => true
  | .shown _ | .opened .. | .icon _ => false

-- The lines shown since the transcript was wiped for the last time.
def recent (log : List Event) : List Line :=
  (log.rtakeWhile (!·.isCleared)).filterMap line?

theorem recent_snoc (log : List Event) (event : Event) :
    recent (log ++ [event]) =
      if event.isCleared then [] else recent log ++ event.line?.toList := by
  unfold recent
  rw [List.rtakeWhile_concat]
  cases event <;> simp [isCleared, line?]

-- What an event does to a transcript.
def tell (transcript : Ring Line) : Event → Ring Line
  | .shown line => (transcript.push line).2
  | .cleared => transcript.clear
  | .opened .. | .icon _ => transcript

-- A transcript with room for `limit` lines has the last of what a log says.
structure Kept (limit : Nat) (log : List Event) (transcript : Ring Line) : Prop where
  capacity : transcript.capacity = limit
  lines : transcript.toList = (recent log).rtake limit

variable {limit : Nat} {log : List Event} {transcript : Ring Line}

theorem Kept.tell (h : Kept limit log transcript) (event : Event) :
    Kept limit (log ++ [event]) (event.tell transcript) := by
  obtain ⟨rfl, hlines⟩ := h
  have hsnoc := recent_snoc log event
  cases event with
  | shown line =>
      refine ⟨transcript.capacity_push line, ?_⟩
      rw [Event.tell, Ring.toList_push, hlines, Ring.rtake_append_rtake, hsnoc]
      rfl
  | cleared =>
      refine ⟨rfl, ?_⟩
      rw [Event.tell, Ring.toList_clear, hsnoc, isCleared, if_pos rfl, List.rtake_nil]
  | opened | icon =>
      refine ⟨rfl, ?_⟩
      rw [Event.tell, hlines, hsnoc, isCleared, if_neg Bool.false_ne_true, line?, Option.toList_none,
        List.append_nil]

theorem Kept.foldl_tell (h : Kept limit log transcript) (news : List Event) :
    Kept limit (log ++ news) (news.foldl Event.tell transcript) := by
  induction news generalizing log transcript with
  | nil => rwa [List.append_nil]
  | cons event news ih =>
      have hnews := ih (h.tell event)
      rwa [List.append_assoc] at hnews

theorem kept_make (settings : Settings) :
    Kept (max 1 settings.transcriptLimit) [] (Session.make settings).transcript :=
  ⟨rfl, by rw [Session.make, Ring.toList_make, recent, List.rtakeWhile_nil, List.filterMap_nil, List.rtake_nil]⟩

end Event

namespace Scene

-- From `s` to `s'` nothing is done to the transcript but what is reported, in this order.
def Reports (s s' : Scene) : Prop :=
  ∃ news, s'.log = s.log ++ news ∧
    s'.session.transcript = news.foldl Event.tell s.session.transcript

namespace Reports

theorem refl (s : Scene) : s.Reports s :=
  ⟨[], (List.append_nil _).symm, rfl⟩

variable {s s' s'' : Scene}

theorem trans (h : s.Reports s') (h' : s'.Reports s'') : s.Reports s'' := by
  obtain ⟨news, hlog, htranscript⟩ := h
  obtain ⟨news', hlog', htranscript'⟩ := h'
  refine ⟨news ++ news', ?_, ?_⟩
  · rw [hlog', hlog, List.append_assoc]
  · rw [htranscript', htranscript, List.foldl_append]

-- Nothing that concerns the transcript happens.
theorem of_quiet (news : List Event) (hlog : s'.log = s.log ++ news)
    (hquiet : ∀ transcript, news.foldl Event.tell transcript = transcript)
    (htranscript : s'.session.transcript = s.session.transcript) : s.Reports s' :=
  ⟨news, hlog, htranscript.trans (hquiet _).symm⟩

end Reports

variable (s : Scene)

theorem reports_print (line : Line) : s.Reports (s.print line) :=
  ⟨[.shown line], rfl, rfl⟩

theorem reports_clear : s.Reports s.clear :=
  ⟨[.cleared], rfl, rfl⟩

theorem reports_printAll (lines : List Line) : s.Reports (s.printAll lines) := by
  induction lines generalizing s with
  | nil => exact .refl s
  | cons line lines ih => exact (s.reports_print line).trans (ih (s.print line))

theorem reports_deliver (n : Nat) : s.Reports (s.deliver n) :=
  reports_printAll _ _

theorem reports_reset : s.Reports s.reset :=
  ⟨[.cleared], rfl, rfl⟩

theorem reports_ready (line : String) : s.Reports (s.ready line) :=
  (s.reports_deliver _).trans (reports_print _ _)

theorem reports_apply (outcome : Outcome) : s.Reports (s.apply outcome) := by
  have hclear : s.Reports (if outcome.clear then s.clear else s) := by
    split
    · exact s.reports_clear
    · exact .refl s
  rw [apply_eq]
  apply hclear.trans
  by_cases hpace : outcome.pace.getD 0 = 0
  · simp only [hpace, if_true]
    exact reports_printAll _ _
  · simp only [hpace, if_false]
    exact .refl _

theorem reports_conclude (result : Except Failure Outcome) : s.Reports (s.conclude result) := by
  cases result with
  | ok outcome => exact s.reports_apply outcome
  | error failure => exact s.reports_print _

end Scene

-- Commands do to a transcript only what a session lets them do, which is to show lines and to clear,
-- and all of it is reported.
def Registry.Candid (registry : Registry) : Prop :=
  ∀ command ∈ registry, ∀ (call : Call) (scene : Scene),
    scene.Reports (command.handler call scene).scene

theorem Handler.Does.reports {call : Call} {scene : Scene} {reply : Reply}
    (h : Handler.Does call scene reply) : scene.Reports reply.scene := by
  cases h with
  | fails | crashes | tells | moves | connects => exact .refl scene
  | disconnects =>
      refine .of_quiet [] (List.append_nil _).symm (fun _ => rfl) ?_
      show scene.session.exitHack.2.transcript = scene.session.transcript
      unfold Session.exitHack
      split <;> rfl
  | creates outcome blank below valid found free made =>
      obtain ⟨result, -, -, rfl⟩ := (Scene.commit?_eq_some_iff _).mp made
      refine .of_quiet _ rfl (fun _ => ?_) rfl
      cases result.icon <;> rfl
  | removes outcome made =>
      obtain ⟨result, -, -, rfl⟩ := (Scene.commit?_eq_some_iff _).mp made
      refine .of_quiet _ rfl (fun _ => ?_) rfl
      cases result.icon <;> rfl
  | opens outcome opened =>
      obtain ⟨last, -, -, rfl⟩ := (Scene.open?_eq_some_iff _).mp opened
      exact .of_quiet _ rfl (fun _ => rfl) rfl

theorem Registry.candid_builtin : Registry.builtin.Candid := fun command hcommand call scene =>
  (Handler.does_builtin command hcommand call scene).reports

-- What a host does with a session, and what others do meanwhile.
inductive Deed
  | submit (submission : Submission)
  | print (line : Line)
  | printAll (lines : List Line)
  | clear
  | reset
  | others (drive : Drive) (windows : Option Nat)

namespace Scene

def undergo (registry : Registry) (s : Scene) : Deed → Scene
  | .submit ⟨line, clock, none⟩ => s.submit registry clock line
  | .submit ⟨line, clock, some patience⟩ => s.submitFor registry clock line patience
  | .print line => s.print line
  | .printAll lines => s.printAll lines
  | .clear => s.clear
  | .reset => s.reset
  | .others drive windows => { s with drive, windows }

def undergoAll (registry : Registry) (s : Scene) (deeds : List Deed) : Scene :=
  deeds.foldl (undergo registry) s

section Candid

variable {registry : Registry} (candid : registry.Candid) (s : Scene)

include candid

theorem reports_start (clock : Clock) (line : String) :
    s.Reports (s.start registry clock line).1 := by
  have hexecute := (s.ready line).execute_related id (R := Reports) Reports.refl candid clock line
  rw [start_fst]
  exact (s.reports_ready line).trans (hexecute.trans (reports_conclude _ _))

theorem reports_undergo (deed : Deed) : s.Reports (s.undergo registry deed) := by
  cases deed with
  | submit submission =>
      obtain ⟨line, clock, patience⟩ := submission
      cases patience with
      | none => exact (s.reports_start candid clock line).trans (reports_deliver _ _)
      | some patience => exact (s.reports_start candid clock line).trans (reports_deliver _ _)
  | print line => exact s.reports_print line
  | printAll lines => exact s.reports_printAll lines
  | clear => exact s.reports_clear
  | reset => exact s.reports_reset
  | others drive windows => exact .refl s

theorem reports_undergoAll (deeds : List Deed) : s.Reports (s.undergoAll registry deeds) := by
  induction deeds generalizing s with
  | nil => exact .refl s
  | cons deed deeds ih => exact (s.reports_undergo candid deed).trans (ih _)

-- Whatever is done with a session, its transcript is the last of the lines that have been reported
-- since it was cleared, as many as the limit says, and one at least.
theorem transcript_undergoAll (settings : Settings) (drive : Drive) (windows : Option Nat)
    (deeds : List Deed) :
    let s := undergoAll registry ⟨.make settings, drive, windows, []⟩ deeds
    s.session.transcript.toList = (Event.recent s.log).rtake (max 1 settings.transcriptLimit) := by
  intro s
  obtain ⟨news, hlog, htranscript⟩ := reports_undergoAll candid ⟨.make settings, drive, windows, []⟩ deeds
  have hkept := (Event.kept_make settings).foldl_tell news
  have hlines := hkept.lines
  rw [← htranscript, ← hlog] at hlines
  exact hlines

end Candid

-- A guest with room for two lines, who does not wait for the whole greeting of the mainframe.
def narrow : Settings := { Settings.default with transcriptLimit := 2 }

def chatter : List Deed :=
  [ .printAll [.text "one", .text "two", .text "three"], .clear,
    .submit ⟨"hack", ⟨.epoch, .epoch⟩, some 130⟩, .print (.text "wait") ]

theorem transcript_undergoAll_chatter :
    let s := undergoAll Registry.builtin ⟨.make narrow, .stock .epoch 1, none, []⟩ chatter
    Registry.builtin.Candid ∧ s.log.length = 8 ∧
      s.session.transcript.toList =
        [.success "Bypassing firewall [##########] 100%", .text "wait"] := by
  intro s
  have hrecent : (Event.recent s.log).rtake (max 1 narrow.transcriptLimit) =
      [.success "Bypassing firewall [##########] 100%", .text "wait"] := by decide +kernel
  exact ⟨Registry.candid_builtin, by decide +kernel,
    (transcript_undergoAll Registry.candid_builtin narrow (.stock .epoch 1) none chatter).trans hrecent⟩

end Scene

end DesktopShell

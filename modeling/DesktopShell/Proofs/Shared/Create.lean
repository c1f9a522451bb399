import DesktopShell.Proofs.Shared.Pursuit
import DesktopShell.Shell.Alter

namespace DesktopShell

namespace Alter

-- What `mkdir` and `touch` go by once the name has been found free: the change to ask the drive for,
-- and how to fail if the folder is gone by then.
structure Permit where
  change : Change
  lost : Failure

-- Look up the folder and check the name in it, all in one tree.
def vet (what : NewItem) (usage : String) (call : Call) (session : Session) (d : Drive) :
    Except Failure Permit :=
  match call.line.firstArg? with
  | none => .error (.missingOperand call.name usage)
  | some target =>
      let place := Path.locate session.path target
      let folder := Path.parent place
      let name := Path.fileName place
      if Path.isRoot place || Path.isRoot folder then
        .error (.permissionDenied call.name target)
      else if !isValidName name then
        .error (.invalidArgument call.name (target ++ ": invalid name"))
      else
        match d.find? folder with
        | none => .error (.notFound call.name (Path.display folder))
        | some parent =>
            if !parent.isFolder then .error (.notADirectory call.name (Path.display folder))
            else if (parent.child? name).isSome then .error (.alreadyExists call.name target)
            else .ok ⟨.create what parent.path name, .notFound call.name (Path.display folder)⟩

-- How the command ends with what the drive has made, if anything.
def conclude (done : String) (lost : Failure) : Option Item → Ending
  | some item => .done (.ofLine (.success (done ++ item.name)))
  | none => .failed lost

-- The command checks first and has its change made afterwards.
theorem create_eq (what : NewItem) (usage done : String) (call : Call) (scene : Scene) :
    create what usage done call scene =
      match vet what usage call scene.session scene.drive with
      | .error failure => scene.fail failure
      | .ok permit =>
          match scene.commit? permit.change call.clock.now with
          | none => ⟨scene, conclude done permit.lost none⟩
          | some (item, scene) => ⟨scene, conclude done permit.lost (some item)⟩ := by
  unfold create vet Scene.locate
  cases call.line.firstArg? with
  | none => rfl
  | some target =>
      dsimp only
      split
      · rfl
      · split
        · rfl
        · cases scene.drive.find? (Path.parent (Path.locate scene.session.path target)) with
          | none => rfl
          | some parent =>
              dsimp only
              split
              · rfl
              · split
                · rfl
                · dsimp only
                  generalize scene.commit? _ _ = result?
                  cases result? with
                  | none => rfl
                  | some result => rfl

end Alter

-- A call of `mkdir` or `touch` in a session.
structure Order where
  what : NewItem
  usage : String
  done : String
  call : Call
  session : Session

def Order.folder (call : Call) (session : Session) : Order :=
  ⟨.folder, "mkdir <name>", "Directory created: ", call, session⟩

def Order.file (call : Call) (session : Session) : Order :=
  ⟨.text "", "touch <name>", "File created: ", call, session⟩

-- How far a session has come with its call: nowhere, or past the check, with a change that it makes
-- like any party that shares the drive, or to the end.
inductive Order.Stage
  | fresh
  | vetted (lost : Failure) (party : Shared.Party)
  | ended (ending : Ending)

structure Maker where
  order : Order
  stage : Order.Stage

-- A drive, the sessions that make an item there, and who of them has checked the name and who has
-- had an item published, in this order.
inductive Making.Event
  | checked (who : Nat)
  | made (who : Nat)
  deriving DecidableEq

structure Making where
  drive : Drive
  makers : List Maker
  log : List Making.Event

namespace Order

variable (o : Order)

-- What the command does when nobody else touches the drive.
def handler : Handler :=
  Alter.create o.what o.usage o.done

theorem handler_folder (call : Call) (session : Session) :
    (folder call session).handler = Alter.makeFolder := rfl

theorem handler_file (call : Call) (session : Session) :
    (file call session).handler = Alter.makeFile := rfl

def vet (d : Drive) : Except Failure Alter.Permit :=
  Alter.vet o.what o.usage o.call o.session d

-- A party that is through with its change tells how the command ends.
def settle (lost : Failure) (party : Shared.Party) : Order.Stage :=
  match party.done with
  | [] => .vetted lost party
  | (_, subject) :: _ => .ended (Alter.conclude o.done lost subject)

end Order

structure Making.Turn where
  drive : Drive
  maker : Maker
  event : Option Making.Event

-- What a session does while nobody else touches the drive.
def Maker.turn (who : Nat) (now : Moment) (d : Drive) (m : Maker) : Making.Turn :=
  match m.stage with
  | .fresh =>
      let stage := match m.order.vet d with
        | .error failure => .ended (.failed failure)
        | .ok permit => .vetted permit.lost ⟨[permit.change], .resting, []⟩
      ⟨d, { m with stage }, some (.checked who)⟩
  | .vetted lost party =>
      let turn := party.turn who now d
      ⟨turn.drive, { m with stage := m.order.settle lost turn.party },
        if turn.note.any Shared.Note.publishes then some (.made who) else none⟩
  | .ended _ => ⟨d, m, none⟩

namespace Making

def start (d : Drive) (orders : List Order) : Making :=
  ⟨d, orders.map (⟨·, .fresh⟩), []⟩

def step (s : Making) (who : Nat) (now : Moment) : Making :=
  match s.makers[who]? with
  | none => s
  | some m =>
      let turn := m.turn who now s.drive
      ⟨turn.drive, s.makers.set who turn.maker, s.log ++ turn.event.toList⟩

-- Let the sessions take turns in the given order, each turn at its time.
def run (s : Making) : List (Nat × Moment) → Making
  | [] => s
  | (who, now) :: rest => (s.step who now).run rest

-- A session that nobody comes in between does what the command does.
theorem run_alone (d : Drive) (o : Order) (checks looks ends : Moment) :
    let reply := o.handler o.call ⟨o.session, d, none, []⟩
    let s := (start d [o]).run [(0, checks), (0, looks), (0, o.call.clock.now), (0, ends)]
    s.drive = reply.scene.drive ∧ s.makers = [⟨o, .ended reply.ending⟩] := by
  intro reply s
  have hreply : reply = _ := Alter.create_eq o.what o.usage o.done o.call _
  change reply = match o.vet d with | .error _ => _ | .ok _ => _ at hreply
  cases hvet : o.vet d with
  | error failure =>
      rw [hvet] at hreply
      simp [hreply, s, start, run, step, Maker.turn, hvet, Scene.fail]
  | ok permit =>
      rw [hvet] at hreply
      have hcommit := d.commit?_eq permit.change o.call.clock.now
      cases hplan : permit.change.plan? d.root ⟨d.nextId, o.call.clock.now⟩ with
      | none =>
          rw [hplan, Option.map_none] at hcommit
          simp [hreply, s, start, run, step, Maker.turn, hvet, Shared.Party.turn, Order.settle,
            Drive.sight, hplan, Scene.commit?, hcommit]
      | some plan =>
          rw [hplan, Option.map_some] at hcommit
          cases hc : permit.change.creates <;>
            simp [hreply, s, start, run, step, Maker.turn, hvet, Shared.Party.turn, Order.settle,
              Drive.sight, hplan, Scene.commit?, hcommit, Drive.publish?, Drive.drawn, Drive.icon?, hc]

end Making

namespace Making

def Event.made? : Event → Option Nat
  | .checked _ => none
  | .made who => some who

def winners (log : List Event) : List Nat :=
  log.filterMap Event.made?

-- Who has checked the name before anybody had an item published.
def Early (log : List Event) (who : Nat) : Prop :=
  .checked who ∈ log.takeWhile (·.made?.isNone)

instance (log : List Event) (who : Nat) : Decidable (Early log who) :=
  inferInstanceAs (Decidable (_ ∈ _))

section Log

variable {log more : List Event} {who : Nat}

theorem winners_append (log more : List Event) : winners (log ++ more) = winners log ++ winners more :=
  List.filterMap_append

theorem winners_eq_nil_iff : winners log = [] ↔ ∀ e ∈ log, e.made?.isNone = true := by
  simp [winners, List.filterMap_eq_nil_iff]

theorem takeWhile_eq_self (h : winners log = []) : log.takeWhile (·.made?.isNone) = log :=
  List.takeWhile_eq_self_iff.mpr (winners_eq_nil_iff.mp h)

-- Nobody becomes early later.
theorem early_append (hmore : .checked who ∉ more) : Early (log ++ more) who ↔ Early log who := by
  unfold Early
  rw [List.takeWhile_append]
  split
  · next hall =>
      have hlog := (List.takeWhile_prefix _).eq_of_length hall
      have hnot : .checked who ∉ more.takeWhile (·.made?.isNone) :=
        fun h => hmore ((List.takeWhile_prefix _).subset h)
      rw [hlog, List.mem_append, or_iff_left hnot]
  · rfl

theorem early_checked (hnew : .checked who ∉ log) :
    Early (log ++ [.checked who]) who ↔ winners log = [] := by
  have hself : winners [Event.checked who] = [] := rfl
  constructor
  · intro h
    unfold Early at h
    rw [List.takeWhile_append] at h
    split at h
    · next hall =>
        have hlog := (List.takeWhile_prefix _).eq_of_length hall
        exact winners_eq_nil_iff.mpr (List.takeWhile_eq_self_iff.mp hlog)
    · exact absurd ((List.takeWhile_prefix _).subset h) hnew
  · intro h
    have hall : winners (log ++ [.checked who]) = [] := by
      rw [winners_append, h, hself]
      rfl
    unfold Early
    rw [takeWhile_eq_self hall]
    simp

end Log

end Making

-- A place where an item may be made.
structure Order.Allowed (place : String) : Prop where
  below : Path.isRoot place = false
  inside : Path.isRoot (Path.parent place) = false
  valid : Alter.isValidName (Path.fileName place) = true

-- A call that is about a place.
def Order.Aims (o : Order) (place : String) : Prop :=
  ∃ target, o.call.line.firstArg? = some target ∧ Path.locate o.session.path target = place

-- The check passes where the name is free.
theorem Order.vet_cases {o : Order} {place : String} (haims : o.Aims place) {d : Drive} {x : Item}
    (hfind : d.find? (Path.parent place) = some x) (hfolder : x.isFolder = true) :
    (∃ lost, o.vet d = .ok ⟨.create o.what x.path (Path.fileName place), lost⟩ ∧ Allowed place ∧
        x.named (Path.fileName place) = 0) ∨
      ∃ failure, o.vet d = .error failure ∧
        ¬(Allowed place ∧ x.named (Path.fileName place) = 0) := by
  obtain ⟨target, htarget, rfl⟩ := haims
  unfold vet Alter.vet
  simp only [htarget]
  generalize Path.locate o.session.path target = place at hfind ⊢
  split
  · next hroot =>
      refine .inr ⟨_, rfl, fun ⟨hallowed, _⟩ => ?_⟩
      simp [hallowed.below, hallowed.inside] at hroot
  · next hroot =>
      simp only [Bool.or_eq_true, not_or, Bool.not_eq_true] at hroot
      split
      · next hname =>
          refine .inr ⟨_, rfl, fun ⟨hallowed, _⟩ => ?_⟩
          simp [hallowed.valid] at hname
      · next hname =>
          have hallowed : Allowed place := ⟨hroot.1, hroot.2, by simpa using hname⟩
          simp only [hfind, hfolder, Bool.not_true, Bool.false_eq_true, if_false]
          split
          · next htaken =>
              refine .inr ⟨_, rfl, fun ⟨_, hfree⟩ => ?_⟩
              rw [Item.named_eq_zero_iff.mp hfree] at htaken
              cases htaken
          · next hfree => exact .inl ⟨_, rfl, hallowed, Item.named_eq_zero_iff.mpr (by simpa using hfree)⟩

end DesktopShell

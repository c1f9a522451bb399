import DesktopShell.Proofs.Drive.Commit

namespace DesktopShell

namespace Drive

-- Use up the number for a new item if the change needs one.
def drawn (d : Drive) (change : Change) : Drive :=
  if change.creates then { d with nextId := d.nextId + 1 } else d

-- Publish what was worked out on the tree with the given revision, if that is still the drive's.
def publish? (d : Drive) (revision : Nat) (change : Change) (plan : Plan) : Option Committed :=
  if d.revision = revision then
    some
      { subject := plan.subject
        icon := d.icon? change plan.subject
        drive := { d with root := plan.root, revision := d.revision + 1 } }
  else none

-- An attempt at a change is these steps in a row.
theorem attempt_eq (d : Drive) (seen : Sight) (change : Change) (now : Moment) :
    d.attempt seen change now =
      match change.plan? seen.root ⟨d.nextId, now⟩ with
      | none => .refused
      | some plan =>
          match (d.drawn change).publish? seen.revision change plan with
          | none => .stale (d.drawn change)
          | some result => .committed result := by
  unfold attempt
  cases change.plan? seen.root ⟨d.nextId, now⟩ with
  | none => rfl
  | some plan =>
      change (if (d.drawn change).revision = seen.revision then _ else _) = _
      by_cases h : (d.drawn change).revision = seen.revision
      · simp only [publish?, if_pos h]
        rfl
      · simp only [publish?, if_neg h]
        rfl

@[simp] theorem sight_drawn (d : Drive) (change : Change) : (d.drawn change).sight = d.sight := by
  unfold drawn
  split <;> rfl

theorem publish?_eq_some {d : Drive} {revision : Nat} {change : Change} {plan : Plan}
    {result : Committed} (h : d.publish? revision change plan = some result) :
    d.revision = revision ∧ result.subject = plan.subject ∧
      result.drive.sight = ⟨plan.root, d.revision + 1⟩ := by
  unfold publish? at h
  split at h
  · next hrevision =>
      obtain rfl := Option.some.inj h
      exact ⟨hrevision, rfl, rfl⟩
  · cases h

end Drive

namespace Shared

-- What a party is at: nothing, or the first of the changes it still has to make, for which it has
-- looked at the drive or even worked out the outcome on what it saw there.
inductive Stage
  | resting
  | looked (seen : Sight)
  | planned (seen : Sight) (stamp : Stamp) (plan : Plan)

-- A party with the changes it still has to make, and those it has made, each with the item it was
-- about if it succeeded.
structure Party where
  todo : List Change
  stage : Stage
  done : List (Change × Option Item)

inductive Note
  | looked (who : Nat)
  | published (who : Nat) (change : Change) (stamp : Stamp) (subject : Item)
  | refused (who : Nat) (change : Change) (stamp : Stamp)

-- What a turn leaves behind, and what is put on record about it.
structure Turn where
  drive : Drive
  party : Party
  note : Option Note

-- What a party does while nobody else touches the drive: it looks at the tree, or works its change
-- out and draws the number for a new item, or publishes the outcome. Where another tree has been
-- published since it looked, it starts over and looks again.
def Party.turn (who : Nat) (now : Moment) (d : Drive) (p : Party) : Turn :=
  match p.todo, p.stage with
  | [], _ => ⟨d, p, none⟩
  | _ :: _, .resting => ⟨d, { p with stage := .looked d.sight }, some (.looked who)⟩
  | change :: rest, .looked seen =>
      match change.plan? seen.root ⟨d.nextId, now⟩ with
      | none =>
          ⟨d, ⟨rest, .resting, p.done ++ [(change, none)]⟩, some (.refused who change ⟨d.nextId, now⟩)⟩
      | some plan =>
          ⟨d.drawn change, { p with stage := .planned seen ⟨d.nextId, now⟩ plan }, none⟩
  | change :: rest, .planned seen stamp plan =>
      match d.publish? seen.revision change plan with
      | none => ⟨d, { p with stage := .resting }, none⟩
      | some result =>
          ⟨result.drive, ⟨rest, .resting, p.done ++ [(change, some result.subject)]⟩,
            some (.published who change stamp result.subject)⟩

end Shared

-- A drive, the parties that change it, and a record of what they have done so far.
structure Shared where
  drive : Drive
  parties : List Shared.Party
  log : List Shared.Note

namespace Shared

def start (d : Drive) (lists : List (List Change)) : Shared :=
  ⟨d, lists.map fun todo => ⟨todo, .resting, []⟩, []⟩

def step (s : Shared) (who : Nat) (now : Moment) : Shared :=
  match s.parties[who]? with
  | none => s
  | some p =>
      let turn := p.turn who now s.drive
      ⟨turn.drive, s.parties.set who turn.party, s.log ++ turn.note.toList⟩

section Step

variable {s : Shared} {who other : Nat} {p : Party} (now : Moment)

theorem step_of_none (hp : s.parties[who]? = none) : s.step who now = s := by
  rw [step, hp]

theorem step_eq (hp : s.parties[who]? = some p) :
    s.step who now =
      { drive := (p.turn who now s.drive).drive
        parties := s.parties.set who (p.turn who now s.drive).party
        log := s.log ++ (p.turn who now s.drive).note.toList } := by
  rw [step, hp]

theorem log_step (hp : s.parties[who]? = some p) :
    (s.step who now).log = s.log ++ (p.turn who now s.drive).note.toList := by
  rw [step_eq now hp]

theorem party_step_self (hp : s.parties[who]? = some p) :
    (s.step who now).parties[who]? = some (p.turn who now s.drive).party := by
  rw [step_eq now hp, List.getElem?_set_self', hp]
  rfl

theorem party_step_ne (hother : who ≠ other) :
    (s.step who now).parties[other]? = s.parties[other]? := by
  unfold step
  split
  · rfl
  · exact List.getElem?_set_ne hother

end Step

-- Let the parties take turns in the given order, each turn at its time.
def run (s : Shared) : List (Nat × Moment) → Shared
  | [] => s
  | (who, now) :: rest => (s.step who now).run rest

-- A party that nobody comes in between commits its change, or is refused.
theorem run_alone (d : Drive) (change : Change) (looks works ends : Moment) :
    let s := (start d [[change]]).run [(0, looks), (0, works), (0, ends)]
    s.drive = d.after change works ∧
      s.parties = [⟨[], .resting, [(change, (d.commit? change works).map (·.subject))]⟩] := by
  have hcommit := d.commit?_eq change works
  cases hplan : change.plan? d.root ⟨d.nextId, works⟩ with
  | none =>
      rw [hplan] at hcommit
      simp [start, run, step, Party.turn, Drive.sight, hplan, Drive.after, hcommit]
  | some plan =>
      rw [hplan] at hcommit
      cases hc : change.creates <;>
        simp [start, run, step, Party.turn, Drive.sight, hplan, Drive.after, hcommit,
          Drive.publish?, Drive.drawn, Drive.icon?, hc]

end Shared

end DesktopShell

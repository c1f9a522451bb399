import DesktopShell.Drive.Stock
import DesktopShell.Proofs.Shared.Turn
import Mathlib.Data.List.Infix

namespace DesktopShell

-- The drive when the next item gets this number.
def Drive.withNext (d : Drive) (i : ItemId) : Drive :=
  { d with nextId := i }

namespace Shared

def Note.who : Note → Nat
  | .looked who | .published who _ _ _ | .refused who _ _ => who

-- The change a party is done with, and what it was told.
def Note.answer? (who : Nat) : Note → Option (Change × Option Item)
  | .looked _ => none
  | .published other change _ subject => if other = who then some (change, some subject) else none
  | .refused other change _ => if other = who then some (change, none) else none

theorem Note.answer?_of_ne {note : Note} {who : Nat} (h : note.who ≠ who) :
    note.answer? who = none := by
  cases note with
  | looked => rfl
  | published => exact if_neg h
  | refused => exact if_neg h

-- Make the changes on record, one after the other, each with the number and at the time it had.
def redo (d : Drive) : Note → Drive
  | .published _ change stamp _ => (d.withNext stamp.id).after change stamp.now
  | _ => d

def replay (d : Drive) (log : List Note) : Drive :=
  log.foldl redo d

-- What a party was told is what it is told when its change is made with nobody else around: at the
-- moment it was published, or, if it was refused, at the moment the party looked for the last time.
def Justified (d : Drive) (before : List Note) : Note → Prop
  | .looked _ => True
  | .published _ change stamp subject =>
      ∃ result, ((replay d before).withNext stamp.id).commit? change stamp.now = some result ∧
        result.subject = subject
  | .refused who change stamp =>
      ∃ front back, before = front ++ .looked who :: back ∧ (∀ note ∈ back, note.who ≠ who) ∧
        ((replay d front).withNext stamp.id).commit? change stamp.now = none

def doneBy (s : Shared) (who : Nat) : List (Change × Option Item) :=
  match s.parties[who]? with
  | none => []
  | some p => p.done

-- All changes a party was asked for.
def Party.changes (p : Party) : List Change :=
  p.done.map Prod.fst ++ p.todo

-- The parties might as well have changed the drive one at a time: its tree comes from what they
-- published, in that order, each was told the right thing, and each is through with a part of its
-- changes and has every one of those on record once.
structure Linear (d : Drive) (lists : List (List Change)) (s : Shared) : Prop where
  sight : s.drive.sight = (replay d s.log).sight
  told : ∀ front note, front ++ [note] <+: s.log → Justified d front note
  order : s.parties.map Party.changes = lists
  once : ∀ who, s.log.filterMap (Note.answer? who) = s.doneBy who

theorem replay_append (d : Drive) (log more : List Note) :
    replay d (log ++ more) = replay (replay d log) more :=
  List.foldl_append

-- A tree that is replaced never comes back: each one has a revision of its own.
theorem sight_redo (d : Drive) (note : Note) :
    (redo d note).sight = d.sight ∨ (redo d note).revision = d.revision + 1 := by
  cases note with
  | looked who => exact .inl rfl
  | refused who change stamp => exact .inl rfl
  | published who change stamp subject =>
      rw [redo]
      rcases (d.withNext stamp.id).after_step change stamp.now with
        hsame | ⟨_, _, result, hresult, hafter⟩
      · exact .inl (congrArg Drive.sight hsame :)
      · obtain ⟨plan, -, rfl⟩ := Drive.commit?_eq_some_iff.mp hresult
        exact .inr (congrArg Drive.revision hafter)

theorem revision_le_replay (d : Drive) (log : List Note) :
    d.revision ≤ (replay d log).revision := by
  induction log generalizing d with
  | nil => exact Nat.le_refl _
  | cons note rest ih =>
      have hrest := ih (redo d note)
      rcases sight_redo d note with hsame | hnext
      · have : (redo d note).revision = d.revision := congrArg Sight.revision hsame
        exact this ▸ hrest
      · exact Nat.le_trans (by omega) hrest

theorem sight_replay {d : Drive} {log : List Note} (h : (replay d log).revision = d.revision) :
    (replay d log).sight = d.sight := by
  induction log generalizing d with
  | nil => rfl
  | cons note rest ih =>
      have hrest := revision_le_replay (redo d note) rest
      rcases sight_redo d note with hsame | hnext
      · have hrevision : (redo d note).revision = d.revision := congrArg Sight.revision hsame
        exact (ih (h.trans hrevision.symm)).trans hsame
      · change (replay (redo d note) rest).revision = d.revision at h
        omega

-- What was seen is how the drive was when the party looked for the last time.
def Recalls (d : Drive) (log : List Note) (who : Nat) (seen : Sight) : Prop :=
  ∃ front back, log = front ++ .looked who :: back ∧ (∀ note ∈ back, note.who ≠ who) ∧
    (replay d front).sight = seen

def Party.Knows (d : Drive) (log : List Note) (who : Nat) (p : Party) : Prop :=
  match p.stage with
  | .resting => True
  | .looked seen => Recalls d log who seen
  | .planned seen stamp plan =>
      Recalls d log who seen ∧
        ∃ change rest, p.todo = change :: rest ∧ change.plan? seen.root stamp = some plan

section Turn

variable {d₀ d : Drive} {log more : List Note} {who : Nat} {now : Moment} {seen : Sight}
  {p : Party}

theorem Recalls.append (h : Recalls d log who seen) (hmore : ∀ note ∈ more, note.who ≠ who) :
    Recalls d (log ++ more) who seen := by
  obtain ⟨front, back, rfl, hback, hseen⟩ := h
  refine ⟨front, back ++ more, by simp, fun note hnote => ?_, hseen⟩
  exact (List.mem_append.mp hnote).elim (hback note) (hmore note)

theorem Party.Knows.append (h : p.Knows d log who) (hmore : ∀ note ∈ more, note.who ≠ who) :
    p.Knows d (log ++ more) who := by
  rcases p with ⟨todo, stage, done⟩
  cases stage with
  | resting => trivial
  | looked seen => exact Recalls.append h hmore
  | planned seen stamp plan => exact ⟨h.1.append hmore, h.2⟩

theorem Party.Knows.looked (h : p.Knows d log who) (hstage : p.stage = .looked seen) :
    Recalls d log who seen := by
  unfold Knows at h
  rwa [hstage] at h

theorem Party.Knows.planned {change : Change} {rest : List Change} {stamp : Stamp} {plan : Plan}
    (h : p.Knows d log who) (hstage : p.stage = .planned seen stamp plan)
    (htodo : p.todo = change :: rest) :
    Recalls d log who seen ∧ change.plan? seen.root stamp = some plan := by
  unfold Knows at h
  rw [hstage] at h
  obtain ⟨hseen, first, others, hfirst, hplan⟩ := h
  obtain ⟨rfl, -⟩ := List.cons.inj (htodo.symm.trans hfirst)
  exact ⟨hseen, hplan⟩

-- As long as the revision is the one that was seen, so is the tree.
theorem Recalls.sight_eq (h : Recalls d₀ log who seen) (hd : d.sight = (replay d₀ log).sight)
    (hrevision : d.revision = seen.revision) : d.sight = seen := by
  obtain ⟨front, back, rfl, -, rfl⟩ := h
  rw [replay_append] at hd
  rw [hd]
  apply sight_replay
  exact (congrArg Sight.revision hd).symm.trans hrevision

-- What gets published was worked out on the tree it replaces.
theorem commit?_of_publish? {change : Change} {stamp : Stamp} {plan : Plan} {result : Committed}
    (hseen : Recalls d₀ log who seen) (hd : d.sight = (replay d₀ log).sight)
    (hplan : change.plan? seen.root stamp = some plan)
    (h : d.publish? seen.revision change plan = some result) :
    ∃ alone, ((replay d₀ log).withNext stamp.id).commit? change stamp.now = some alone ∧
      alone.subject = result.subject ∧ alone.drive.sight = result.drive.sight := by
  obtain ⟨hrevision, hsubject, hresult⟩ := Drive.publish?_eq_some h
  obtain rfl := hseen.sight_eq hd hrevision
  have hroot : (replay d₀ log).root = d.root := (congrArg Sight.root hd).symm
  have hrev : (replay d₀ log).revision = d.revision := (congrArg Sight.revision hd).symm
  refine ⟨_, Drive.commit?_eq_some_iff.mpr ⟨plan, ?_, rfl⟩, hsubject.symm, ?_⟩
  · exact hroot ▸ hplan
  · rw [hresult, ← hrev]
    rfl

theorem turn_who : ∀ note ∈ (p.turn who now d).note.toList, note.who = who := by
  fun_cases Party.turn <;> simp [Note.who]

theorem turn_who_ne {other : Nat} (hother : who ≠ other) :
    ∀ note ∈ (p.turn who now d).note.toList, note.who ≠ other :=
  fun note hnote => turn_who note hnote ▸ hother

theorem turn_changes : (p.turn who now d).party.changes = p.changes := by
  fun_cases Party.turn <;> simp [Party.changes, *]

theorem turn_done :
    (p.turn who now d).party.done =
      p.done ++ (p.turn who now d).note.toList.filterMap (Note.answer? who) := by
  fun_cases Party.turn <;> simp [Note.answer?]

variable (hp : p.Knows d₀ log who) (hd : d.sight = (replay d₀ log).sight)

include hp hd

theorem turn_told : ∀ note ∈ (p.turn who now d).note, Justified d₀ log note := by
  fun_cases Party.turn with
  | case1 => simp
  | case2 => simp [Justified]
  | case3 change rest seen hstage htodo hplan =>
      obtain ⟨front, back, hlog, hback, rfl⟩ := hp.looked hstage
      have halone : ((replay d₀ front).withNext d.nextId).commit? change now = none := by
        rw [Drive.commit?_eq, Option.map_eq_none_iff]
        exact hplan
      rintro note ⟨⟩
      exact ⟨front, back, hlog, hback, halone⟩
  | case4 => simp
  | case5 => simp
  | case6 change rest seen stamp plan hstage htodo result hresult =>
      obtain ⟨hseen, hplan⟩ := hp.planned hstage htodo
      obtain ⟨alone, halone, hsubject, -⟩ := commit?_of_publish? hseen hd hplan hresult
      rintro note ⟨⟩
      exact ⟨alone, halone, hsubject⟩

theorem turn_sight :
    (p.turn who now d).drive.sight = (replay d₀ (log ++ (p.turn who now d).note.toList)).sight := by
  rw [replay_append]
  fun_cases Party.turn with
  | case1 => exact hd
  | case2 => exact hd
  | case3 => exact hd
  | case4 => exact (d.sight_drawn _).trans hd
  | case5 => exact hd
  | case6 change rest seen stamp plan hstage htodo result hresult =>
      obtain ⟨hseen, hplan⟩ := hp.planned hstage htodo
      obtain ⟨alone, halone, -, halone_sight⟩ := commit?_of_publish? hseen hd hplan hresult
      change _ = (Drive.after _ change stamp.now).sight
      rw [Drive.after, halone]
      exact halone_sight.symm

theorem turn_knows :
    (p.turn who now d).party.Knows d₀ (log ++ (p.turn who now d).note.toList) who := by
  fun_cases Party.turn with
  | case1 => simpa using hp
  | case2 => exact ⟨log, [], rfl, by simp, hd.symm⟩
  | case3 => trivial
  | case4 change rest seen hstage htodo plan hplan =>
      rw [Option.toList_none, List.append_nil]
      exact ⟨hp.looked hstage, change, rest, htodo, hplan⟩
  | case5 => trivial
  | case6 => trivial

end Turn

-- What holds between any two turns.
structure Invariant (d : Drive) (lists : List (List Change)) (s : Shared) : Prop
    extends Linear d lists s where
  knows : ∀ (who : Nat) (p : Party), s.parties[who]? = some p → p.Knows d s.log who

theorem invariant_start (d : Drive) (lists : List (List Change)) :
    Invariant d lists (start d lists) where
  sight := rfl
  told front note h := by simp [start] at h
  order := by simp [start, Party.changes, Function.comp_def]
  once who := by
    simp only [start, doneBy, List.filterMap_nil, List.getElem?_map]
    cases lists[who]? <;> rfl
  knows who p h := by
    simp only [start, List.getElem?_map, Option.map_eq_some_iff] at h
    obtain ⟨todo, -, rfl⟩ := h
    trivial

section Step

variable {d : Drive} {lists : List (List Change)} {s : Shared} {who : Nat} {p : Party}
  (h : Invariant d lists s) (hp : s.parties[who]? = some p) (now : Moment)

include h hp

theorem told_step : ∀ front note, front ++ [note] <+: (s.step who now).log →
    Justified d front note := by
  intro front note hfront
  rw [log_step now hp] at hfront
  cases hnote : (p.turn who now s.drive).note with
  | none =>
      rw [hnote, Option.toList_none, List.append_nil] at hfront
      exact h.told front note hfront
  | some last =>
      rw [hnote, Option.toList_some, List.prefix_concat_iff] at hfront
      rcases hfront with hlast | hbefore
      · obtain ⟨rfl, hsame⟩ := List.append_inj' hlast rfl
        obtain rfl := List.singleton_inj.mp hsame
        exact turn_told (h.knows who p hp) h.sight note hnote
      · exact h.told front note hbefore

theorem order_step : (s.step who now).parties.map Party.changes = lists := by
  obtain ⟨hwho, rfl⟩ := List.getElem?_eq_some_iff.mp hp
  rw [step_eq now hp, List.map_set, turn_changes, ← List.getElem_map Party.changes,
    List.set_getElem_self]
  · exact h.order
  · simpa using hwho

theorem once_step (other : Nat) :
    (s.step who now).log.filterMap (Note.answer? other) = (s.step who now).doneBy other := by
  rw [log_step now hp, List.filterMap_append, h.once]
  by_cases hother : who = other
  · subst hother
    simp only [doneBy, hp, party_step_self now hp]
    exact turn_done.symm
  · have hnone : (p.turn who now s.drive).note.toList.filterMap (Note.answer? other) = [] :=
      List.filterMap_eq_nil_iff.mpr fun note hnote =>
        Note.answer?_of_ne (turn_who_ne hother note hnote)
    rw [hnone, List.append_nil, doneBy, doneBy, party_step_ne now hother]

theorem knows_step (other : Nat) (q : Party) (hq : (s.step who now).parties[other]? = some q) :
    q.Knows d (s.step who now).log other := by
  rw [log_step now hp]
  by_cases hother : who = other
  · subst hother
    rw [party_step_self now hp] at hq
    obtain rfl := Option.some.inj hq
    exact turn_knows (h.knows who p hp) h.sight
  · rw [party_step_ne now hother] at hq
    exact (h.knows other q hq).append (turn_who_ne hother)

end Step

theorem Invariant.step {d : Drive} {lists : List (List Change)} {s : Shared}
    (h : Invariant d lists s) (who : Nat) (now : Moment) : Invariant d lists (s.step who now) := by
  cases hp : s.parties[who]? with
  | none => rwa [step_of_none now hp]
  | some p =>
      refine ⟨⟨?_, told_step h hp now, order_step h hp now, once_step h hp now⟩,
        knows_step h hp now⟩
      rw [step_eq now hp]
      exact turn_sight (h.knows who p hp) h.sight

-- Whoever takes turns with whom, and whenever.
theorem linear_run (d : Drive) (lists : List (List Change)) (schedule : List (Nat × Moment)) :
    Linear d lists ((start d lists).run schedule) := by
  have hrun : ∀ s, Invariant d lists s → Invariant d lists (s.run schedule) := by
    induction schedule with
    | nil => exact fun _ h => h
    | cons turn rest ih => exact fun s h => ih _ (h.step turn.1 turn.2)
  exact (hrun _ (invariant_start d lists)).toLinear

-- Two parties look at the same tree. The one that comes second has to look again, and its folder
-- gets the third number.
example :
    let s := (start (Drive.stock Moment.epoch 1)
      [[.create .folder "/" "a"], [.create .folder "/" "b"]]).run
      ([0, 1, 0, 1, 0, 1, 1, 1, 1].map (·, Moment.epoch))
    s.log.map Note.who = [0, 1, 0, 1, 1] ∧
      s.drive.root.children.map (fun c => (c.name, c.id)) = [("C:", 2), ("a", 27), ("b", 29)] := by
  decide +kernel

end Shared

end DesktopShell

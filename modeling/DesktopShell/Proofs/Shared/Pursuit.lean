import DesktopShell.Proofs.Drive.Feasible
import DesktopShell.Proofs.Shared.Turn
import DesktopShell.Proofs.Tree.Commute

namespace DesktopShell

namespace Item

-- How many children of a name there are.
def named (x : Item) (name : String) : Nat :=
  x.children.countP (·.name = name)

theorem named_eq_zero_iff {x : Item} {name : String} : x.named name = 0 ↔ x.child? name = none := by
  rw [child?, named, List.find?_eq_none, List.countP_eq_zero]

-- A path that leads to a folder.
def Leads (root : Item) (p : String) : Prop :=
  ∃ x, root.find? p = some x ∧ x.isFolder = true

end Item

namespace Change

variable {root : Item} {stamp : Stamp} {plan : Plan} {what : NewItem} {folder name : String}

theorem exists_plan?_create_iff (hr : root.Grounded) :
    (∃ plan, (create what folder name).plan? root stamp = some plan) ↔ root.Leads folder := by
  constructor
  · rintro ⟨plan, hplan⟩
    obtain ⟨parent, hfind, hfolder, -⟩ := plan?_create.mp hplan
    exact ⟨parent, hfind, hfolder⟩
  · rintro ⟨x, hx, hfolder⟩
    have hplaced := hr.placed.of_mem_walk (Item.mem_walk_of_descend hx)
    obtain ⟨e, cs, rfl⟩ := Item.exists_mk_of_isFolder hplaced hfolder
    let new := what.make stamp name (Path.join e.path name)
    obtain ⟨root', hex⟩ :=
      Item.exists_exchange hx (.mk (e.touch stamp.now) (some (cs ++ [new])))
    exact ⟨⟨root', new⟩, (plan?_create_iff hr).mpr ⟨e, cs, hx, rfl, hex⟩⟩

-- A new item leaves everything where it was. Its folder has one more child of its name, and no other
-- item has.
theorem find?_created (hr : root.Grounded) (h : (create what folder name).plan? root stamp = some plan)
    {p : String} {x : Item} (hx : root.find? p = some x) :
    ∃ x', plan.root.find? p = some x' ∧ x'.path = x.path ∧ x'.isFolder = x.isFolder ∧
      x'.named name = x.named name + if Path.route p = Path.route folder then 1 else 0 := by
  by_cases hsame : Path.route p = Path.route folder
  · obtain ⟨e, cs, hfolder, hsubject, hex⟩ := (plan?_create_iff hr).mp h
    rw [Item.find?, hsame] at hx
    obtain rfl : x = .mk e (some cs) := Option.some.inj (hx.symm.trans hex.descend)
    have hname : plan.subject.name = name := by
      rw [hsubject]
      exact (path_make stamp what name _).2
    have hfind : plan.root.find? p = some (.mk (e.touch stamp.now) (some (cs ++ [plan.subject]))) := by
      rw [Item.find?, hsame]
      exact hex.descend_new rfl
    refine ⟨_, hfind, rfl, rfl, ?_⟩
    rw [if_pos hsame]
    show (cs ++ [plan.subject]).countP (·.name = name) = cs.countP (·.name = name) + 1
    rw [List.countP_append, List.countP_singleton, if_pos (by simpa using hname)]
  · obtain ⟨parent, hparent, -, -, hrebuild⟩ := plan?_create.mp h
    rw [hr.segments_path hparent] at hrebuild
    have hspares : root.Spares (Path.route folder) (.insert plan.subject) (Path.route p) :=
      fun _ _ _ _ _ _ => trivial
    obtain ⟨x', hx', rfl | ⟨more, hmore, hinner⟩⟩ := Item.descend_rebuild? hrebuild hspares hx
    · exact ⟨x', hx', rfl, rfl, by rw [if_neg hsame, Nat.add_zero]⟩
    · obtain ⟨e, cs, cs', -, hex⟩ := Item.rebuild?_eq_some_iff.mp hinner
      cases hex with
      | here => exact absurd (by simpa using hmore) hsame
      | @inside n names e' before after c c' first found inner =>
          have hname : c'.name = c.name := inner.entry_eq (·.name) rfl
          refine ⟨_, hx', rfl, rfl, ?_⟩
          rw [if_neg hsame, Nat.add_zero]
          show (before ++ c' :: after).countP (·.name = name) =
            (before ++ c :: after).countP (·.name = name)
          rw [List.countP_append, List.countP_append, List.countP_cons, List.countP_cons, hname]

end Change

namespace Shared

-- What a party has seen of the drive, now or before another tree was published. All along it is the
-- same with the path, whether it leads to a folder.
structure Recent (d : Drive) (folder : String) (leads : Prop) (seen : Sight) : Prop where
  older : seen.revision ≤ d.revision
  same : seen.revision = d.revision → seen.root = d.root
  grounded : seen.root.Grounded
  leads_iff : seen.root.Leads folder ↔ leads

theorem Recent.later {d d' : Drive} {folder : String} {leads : Prop} {seen : Sight}
    (h : Recent d folder leads seen) (hd : d'.sight = d.sight ∨ d'.revision = d.revision + 1) :
    Recent d' folder leads seen := by
  have holder := h.older
  rcases hd with hsame | hnext
  · have hroot : d'.root = d.root := congrArg Sight.root hsame
    have hrevision : d'.revision = d.revision := congrArg Sight.revision hsame
    exact ⟨hrevision ▸ holder, fun he => (h.same (he.trans hrevision)).trans hroot.symm, h.grounded,
      h.leads_iff⟩
  · exact ⟨by omega, fun he => by omega, h.grounded, h.leads_iff⟩

def Note.publishes : Note → Bool
  | .published .. => true
  | .looked .. | .refused .. => false

-- A party that has nothing to do but to make one item, in a folder that it has seen if it has looked
-- at all.
structure Party.Pursues (d : Drive) (what : NewItem) (folder name : String) (leads : Prop)
    (p : Party) : Prop where
  todo : p.todo = [.create what folder name]
  done : p.done = []
  stage : match p.stage with
    | .resting => True
    | .looked seen => Recent d folder leads seen
    | .planned seen stamp plan =>
        Recent d folder leads seen ∧ (Change.create what folder name).plan? seen.root stamp = some plan

section Pursues

variable {d d' : Drive} {what : NewItem} {folder name : String} {leads : Prop} {p : Party}

theorem Party.Pursues.later (h : p.Pursues d what folder name leads)
    (hd : d'.sight = d.sight ∨ d'.revision = d.revision + 1) :
    p.Pursues d' what folder name leads := by
  refine ⟨h.todo, h.done, ?_⟩
  have hstage := h.stage
  cases hp : p.stage with
  | resting => trivial
  | looked seen =>
      rw [hp] at hstage
      exact Recent.later hstage hd
  | planned seen stamp plan =>
      rw [hp] at hstage
      exact ⟨hstage.1.later hd, hstage.2⟩

-- With its turn it comes closer, or it is refused since the path leads nowhere, and the tree stays as
-- it is. Or it publishes what comes of its change on just this tree.
theorem Party.Pursues.turn_cases (h : p.Pursues d what folder name leads) (hr : d.root.Grounded)
    (hleads : d.root.Leads folder ↔ leads) (who : Nat) (now : Moment) :
    let t := p.turn who now d
    (t.drive.sight = d.sight ∧ t.note.any Note.publishes = false ∧
        (t.party.Pursues t.drive what folder name leads ∨
          ¬leads ∧ t.party.done = [(.create what folder name, none)])) ∨
      ∃ plan stamp, (Change.create what folder name).plan? d.root stamp = some plan ∧
        t.drive.sight = ⟨plan.root, d.revision + 1⟩ ∧
        t.party.done = [(.create what folder name, some plan.subject)] ∧
        t.note.any Note.publishes = true := by
  obtain ⟨todo, stage, done⟩ := p
  obtain ⟨rfl, rfl, hstage⟩ := h
  cases stage with
  | resting =>
      exact .inl ⟨rfl, rfl, .inl ⟨rfl, rfl, ⟨Nat.le_refl _, fun _ => rfl, hr, hleads⟩⟩⟩
  | looked seen =>
      have hseen : Recent d folder leads seen := hstage
      have hiff : (∃ plan, (Change.create what folder name).plan? seen.root ⟨d.nextId, now⟩ =
          some plan) ↔ leads :=
        (Change.exists_plan?_create_iff hseen.grounded).trans hseen.leads_iff
      cases hplan : (Change.create what folder name).plan? seen.root ⟨d.nextId, now⟩ with
      | none =>
          simp only [turn, hplan]
          refine .inl ⟨trivial, rfl, .inr ⟨fun hyes => ?_, rfl⟩⟩
          obtain ⟨plan, hsome⟩ := hiff.mpr hyes
          cases hplan.symm.trans hsome
      | some plan =>
          have hsight := d.sight_drawn (.create what folder name)
          simp only [turn, hplan]
          exact .inl ⟨hsight, rfl, .inl ⟨rfl, rfl, hseen.later (.inl hsight), hplan⟩⟩
  | planned seen stamp plan =>
      obtain ⟨hseen, hplan⟩ := hstage
      by_cases hrevision : d.revision = seen.revision
      · rw [hseen.same hrevision.symm] at hplan
        simp only [turn, Drive.publish?, if_pos hrevision]
        exact .inr ⟨plan, stamp, hplan, rfl, rfl, rfl⟩
      · simp only [turn, Drive.publish?, if_neg hrevision]
        exact .inl ⟨trivial, rfl, .inl ⟨rfl, rfl, trivial⟩⟩

end Pursues

end Shared

end DesktopShell

import DesktopShell.Proofs.Shell.Effect
import DesktopShell.Proofs.Tree.Siblings

namespace DesktopShell

namespace Item

-- How `mkdir` and `touch` grow a tree: a name is looked for in the folder `checked`, where it is
-- free, and an empty item of that name is added to the folder `landed`, which is where the path of
-- `checked` leads.
structure Added (root root' checked landed : Item) (name : String) : Prop where
  free : checked.child? name = none
  reached : ∃ p, root.find? p = some checked
  denoted : root.find? checked.path = some landed
  grown : ∃ e cs now new names, landed = mk e (some cs) ∧ new.name = name ∧ new.children = [] ∧
    Exchange landed (mk (e.touch now) (some (cs ++ [new]))) names root root'

-- Nothing on the top of a tree is called like a shortcut.
def NoShortcut (root : Item) : Prop :=
  ∀ c ∈ root.children, Path.shortcut? ("/" ++ c.name) = none

instance (root : Item) : Decidable root.NoShortcut :=
  inferInstanceAs (Decidable (∀ c ∈ root.children, Path.shortcut? ("/" ++ c.name) = none))

section Added

variable {root root' checked landed : Item} {name : String}

theorem Added.landed_eq_iff (h : Added root root' checked landed name) (hr : root.Grounded) :
    landed = checked ↔ Path.IsDirect (Path.segments checked.path) := by
  obtain ⟨p, hfind⟩ := h.reached
  rw [← hr.find?_path_iff hfind, h.denoted, Option.some.injEq]

-- A folder whose path starts with a shortcut stands in a namesake of the shortcut.
theorem Added.landed_eq (h : Added root root' checked landed name) (hr : root.Grounded)
    (hclean : root.NoShortcut) : landed = checked := by
  obtain ⟨p, hfind⟩ := h.reached
  refine (h.landed_eq_iff hr).mpr fun first hfirst => ?_
  rw [hr.segments_path hfind] at hfirst
  cases hroute : Path.route p with
  | nil => simp [hroute] at hfirst
  | cons s rest =>
      rw [hroute] at hfirst
      obtain rfl : s = first := Option.some.inj hfirst
      rw [find?, hroute] at hfind
      obtain ⟨c, hc, -⟩ := descend_cons.mp hfind
      obtain ⟨_, _, _, rfl, _⟩ := child?_eq_some_iff.mp hc
      exact hclean c (mem_children_of_child? hc)

-- Names stay apart if the name is free where the item goes, and only then.
theorem Added.namesDistinct_iff (h : Added root root' checked landed name)
    (hd : root.NamesDistinct) : root'.NamesDistinct ↔ landed.child? name = none := by
  obtain ⟨e, cs, now, new, names, rfl, rfl, hnew, hex⟩ := h.grown
  rw [hex.namesDistinct rfl hd]
  exact (hd.of_mem_walk (mem_walk_of_descend hex.descend)).append_iff hnew

end Added

-- All that a line can do to a tree: nothing, take children of one number out of one folder, or add
-- one item.
inductive Altered (root root' : Item) : Prop
  | same (h : root' = root)
  | shrunk {now : Moment} {id : ItemId} {names : List String}
      (h : root.rebuild? now (.remove id) names = some root')
  | grown {checked landed : Item} {name : String} (h : Added root root' checked landed name)

theorem Altered.namesDistinct {root root' : Item} (h : Altered root root') (hd : root.NamesDistinct)
    (hfree : ∀ checked landed name, Added root root' checked landed name → landed ≠ checked →
      landed.child? name = none) : root'.NamesDistinct := by
  cases h with
  | same h => rwa [h]
  | shrunk h =>
      obtain ⟨e, cs, cs', hrun, hex⟩ := rebuild?_eq_some_iff.mp h
      have hsub : cs'.Sublist cs := by
        obtain rfl := Option.some.inj hrun
        exact List.filter_sublist
      rw [hex.namesDistinct rfl hd]
      exact (hd.of_mem_walk (mem_walk_of_descend hex.descend)).sublist hsub
  | @grown checked landed name h =>
      rw [h.namesDistinct_iff hd]
      by_cases hsame : landed = checked
      · rw [hsame]
        exact h.free
      · exact hfree checked landed name h hsame

end Item

namespace Alter

variable {what : NewItem} {usage done : String} {call : Call} {scene scene' : Scene}

-- What the drive makes, when it is asked for an item of a free name.
theorem added_commit? {checked item : Item} {p name : String} {now : Moment}
    (hr : scene.drive.root.Grounded) (hchecked : scene.drive.find? p = some checked)
    (hfree : checked.child? name = none)
    (hcommit : scene.commit? (.create what checked.path name) now = some (item, scene')) :
    ∃ landed, Item.Added scene.drive.root scene'.drive.root checked landed name := by
  obtain ⟨result, hresult, -, rfl⟩ := (Scene.commit?_eq_some_iff _).mp hcommit
  obtain ⟨plan, hplan, rfl⟩ := Drive.commit?_eq_some_iff.mp hresult
  obtain ⟨e, cs, hlanded, hsubject, hex⟩ := (Change.plan?_create_iff hr).mp hplan
  have hname : plan.subject.name = name := by
    rw [hsubject]
    exact (Change.path_make _ what name _).2
  have hempty : plan.subject.children = [] := by
    rw [hsubject]
    exact Item.children_make _ what name _
  exact ⟨_, hfree, ⟨p, hchecked⟩, hlanded, e, cs, now, plan.subject, _, rfl, hname, hempty, hex⟩

-- A `mkdir` or a `touch` that succeeds adds its item, though to the folder where it looked for the
-- name only if no shortcut comes first in the path of that folder.
theorem added_of_done (hr : scene.drive.root.Grounded) {outcome : Outcome}
    (hdone : (create what usage done call scene).ending = .done outcome) :
    ∃ target checked landed, call.line.firstArg? = some target ∧
      scene.drive.find? (Path.parent (scene.locate target)) = some checked ∧
      Item.Added scene.drive.root (create what usage done call scene).scene.drive.root checked landed
        (Path.fileName (scene.locate target)) ∧
      (landed = checked ↔ Path.IsDirect (Path.segments checked.path)) := by
  rcases create_cases what usage done call scene with ⟨failure, hfail⟩ |
    ⟨target, checked, item, scene', htarget, -, -, hchecked, -, hfree, hcommit, hmade⟩
  · rw [hfail] at hdone
    cases hdone
  · obtain ⟨landed, hadded⟩ := added_commit? hr hchecked hfree hcommit
    rw [hmade]
    exact ⟨target, checked, landed, htarget, hchecked, hadded, hadded.landed_eq_iff hr⟩

end Alter

namespace Handler

theorem Does.altered {call : Call} {scene : Scene} {reply : Reply} (h : Does call scene reply)
    (hr : scene.drive.root.Grounded) : Item.Altered scene.drive.root reply.scene.drive.root := by
  cases h with
  | fails | crashes | tells | moves | connects | disconnects => exact .same rfl
  | creates outcome blank below valid found free made =>
      obtain ⟨landed, hadded⟩ := Alter.added_commit? hr found free made
      exact .grown hadded
  | removes outcome made =>
      obtain ⟨result, hresult, -, rfl⟩ := (Scene.commit?_eq_some_iff _).mp made
      obtain ⟨plan, hplan, rfl⟩ := Drive.commit?_eq_some_iff.mp hresult
      exact .shrunk (Change.plan?_delete.mp hplan).2.2
  | opens outcome opened =>
      obtain ⟨last, -, -, rfl⟩ := (Scene.open?_eq_some_iff _).mp opened
      exact .same rfl

theorem altered_builtin : ∀ command ∈ Registry.builtin, ∀ (call : Call) (scene : Scene),
    scene.drive.root.Grounded →
      Item.Altered scene.drive.root (command.handler call scene).scene.drive.root :=
  fun command hcommand call scene hr => (does_builtin command hcommand call scene).altered hr

end Handler

end DesktopShell

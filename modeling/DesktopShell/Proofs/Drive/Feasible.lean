import DesktopShell.Proofs.Drive.Commit
import DesktopShell.Proofs.Drive.Stock

namespace DesktopShell

namespace Item

-- A folder that names lead to can be rebuilt there, whatever is done to its children.
theorem rebuild?_isSome {now : Moment} {edit : Edit} {names : List String} {root : Item} {e : Entry}
    {cs cs' : List Item} (hfolder : root.descend names = some (.mk e (some cs)))
    (hrun : edit.run? cs = some cs') : (root.rebuild? now edit names).isSome = true := by
  obtain ⟨root', hex⟩ := exists_exchange hfolder (.mk { e with modified := now } (some cs'))
  exact Option.isSome_iff_exists.mpr ⟨root', rebuild?_eq_some_iff.mpr ⟨e, cs, cs', hrun, hex⟩⟩

theorem exists_mk_of_isFolder {x : Item} (hx : x.Placed) (hfolder : x.isFolder = true) :
    ∃ e cs, x = .mk e (some cs) := by
  obtain ⟨e, _ | cs⟩ := x
  · exact absurd (hfolder.symm.trans hx.kind) (by simp [children?])
  · exact ⟨e, cs, rfl⟩

end Item

namespace Change

-- When a change can be made on a tree.
def Feasible (root : Item) : Change → Prop
  | .create _ folder _ => ∃ x, root.find? folder = some x ∧ x.isFolder = true
  | .update path _ => ∃ x, root.find? path = some x ∧ x.isFolder = false
  | .delete path =>
      ∃ x, root.find? path = some x ∧ x ≠ root ∧ ∀ y ∈ x.walk, y.entry.isProtected = false

-- What a change asks for: the way to one folder, and what is to be done to its children. A change
-- that is refused asks for nothing.
def edit? (root : Item) (stamp : Stamp) : Change → Option (List String × Edit)
  | .create what folder name =>
      ((root.find? folder).filter Item.isFolder).map fun parent =>
        (Path.segments parent.path, .insert (what.make stamp name (Path.join parent.path name)))
  | .update path content =>
      ((target? root path).filter (!·.isFolder)).map fun t =>
        (Path.segments (Path.parent t.path), .replace (t.rewrite stamp.now content))
  | .delete path =>
      ((target? root path).filter (!·.containsProtected)).map fun t =>
        (Path.segments (Path.parent t.path), .remove t.id)

variable {root : Item}

-- A plan comes of a tree that is rebuilt with what is asked for.
theorem root_of_planned (root : Item) (now : Moment) (found? : Option Item) (refuses : Item → Bool)
    (ask : Item → List String × Edit) (subject : Item → Item) :
    (planned found? refuses (fun x => root.rebuild? now (ask x).2 (ask x).1) subject).map (·.root) =
      ((found?.filter (!refuses ·)).map ask).bind fun (names, edit) =>
        root.rebuild? now edit names := by
  cases found? with
  | none => rfl
  | some x =>
      cases hx : refuses x with
      | true => simp [planned, Option.filter_some, hx]
      | false =>
          simp only [planned, Option.filter_some, hx, Option.bind_some, Option.map_some, if_true,
            Bool.not_false, Bool.false_eq_true, if_false]
          cases root.rebuild? now (ask x).2 (ask x).1 <;> rfl

-- A change is planned by asking for its edit and rebuilding the tree with it.
theorem plan?_root (root : Item) (stamp : Stamp) (change : Change) :
    (change.plan? root stamp).map (·.root) =
      (change.edit? root stamp).bind fun (names, edit) => root.rebuild? stamp.now edit names := by
  cases change with
  | create what folder name =>
      have h := root_of_planned root stamp.now (root.find? folder) (fun parent => !parent.isFolder)
        (fun parent => (Path.segments parent.path,
          .insert (what.make stamp name (Path.join parent.path name))))
        fun parent => what.make stamp name (Path.join parent.path name)
      simp only [Bool.not_not] at h
      rw [planned_create, edit?]
      exact h
  | update path content =>
      have h := root_of_planned root stamp.now (target? root path) Item.isFolder
        (fun t => (Path.segments (Path.parent t.path), .replace (t.rewrite stamp.now content)))
        fun t => t
      dsimp only at h
      rw [planned_update, edit?]
      exact h
  | delete path =>
      have h := root_of_planned root stamp.now (target? root path) Item.containsProtected
        (fun t => (Path.segments (Path.parent t.path), .remove t.id)) fun t => t
      dsimp only at h
      rw [planned_delete, edit?]
      exact h

-- The root is the only item at the root's place that can be found.
theorem target?_eq_some_iff (hr : root.Grounded) {p : String} {t : Item} :
    target? root p = some t ↔ root.find? p = some t ∧ t ≠ root := by
  rw [target?, Option.filter_eq_some_iff]
  refine and_congr_right fun hfind => ?_
  constructor
  · rintro htop rfl
    simp [hr.top] at htop
  · intro hne
    suffices h : ¬Path.isRoot t.path = true by simpa using h
    intro htop
    rw [Path.isRoot_iff, hr.segments_path hfind] at htop
    rw [Item.find?, htop] at hfind
    exact hne (Option.some.inj hfind).symm

theorem containsProtected_eq_false_iff (x : Item) :
    x.containsProtected = false ↔ ∀ y ∈ x.walk, y.entry.isProtected = false := by
  rw [← Bool.not_eq_true, Item.containsProtected_iff]
  simp [Item.entries]

variable {stamp : Stamp} {change : Change} {names : List String} {edit : Edit}

theorem exists_of_asked {found? : Option Item} {test : Item → Bool} {way : Item → List String}
    {ask : Item → Edit}
    (h : ((found?.filter test).map fun x => (way x, ask x)) = some (names, edit)) :
    ∃ x, found? = some x ∧ test x = true ∧ way x = names ∧ ask x = edit := by
  obtain ⟨x, hx, hcall⟩ := Option.map_eq_some_iff.mp h
  obtain ⟨hfound, htest⟩ := Option.filter_eq_some_iff.mp hx
  obtain ⟨hway, hask⟩ := Prod.mk.inj hcall
  exact ⟨x, hfound, htest, hway, hask⟩

theorem edit?_isSome_iff (hr : root.Grounded) :
    (change.edit? root stamp).isSome = true ↔ change.Feasible root := by
  cases change with
  | create what folder name =>
      simp only [edit?, Feasible, Option.isSome_map, Option.isSome_iff_exists,
        Option.filter_eq_some_iff]
  | update path content =>
      simp only [edit?, Feasible, Option.isSome_map, Option.isSome_iff_exists,
        Option.filter_eq_some_iff, target?_eq_some_iff hr, Bool.not_eq_true']
      refine exists_congr fun t => and_congr_left fun hfile => and_iff_left ?_
      -- The root is a folder.
      rintro rfl
      exact absurd (hr.folder.symm.trans hfile) (by simp)
  | delete path =>
      simp only [edit?, Feasible, Option.isSome_map, Option.isSome_iff_exists,
        Option.filter_eq_some_iff, target?_eq_some_iff hr, Bool.not_eq_true',
        containsProtected_eq_false_iff, and_assoc]

-- What a change asks for on a well-formed tree is always there: the way leads to a folder, and the
-- item to replace is one of its children.
theorem rebuild?_edit (hr : root.WellFormed) (h : change.edit? root stamp = some (names, edit))
    (now : Moment) : (root.rebuild? now edit names).isSome = true := by
  cases change with
  | create what folder name =>
      rw [edit?] at h
      obtain ⟨parent, hfind, hfolder, rfl, rfl⟩ := exists_of_asked h
      have hplaced := hr.placed.of_mem_walk (Item.mem_walk_of_descend hfind)
      obtain ⟨e, cs, rfl⟩ := Item.exists_mk_of_isFolder hplaced hfolder
      rw [hr.grounded.segments_path hfind]
      exact Item.rebuild?_isSome hfind rfl
  | update path content =>
      rw [edit?] at h
      obtain ⟨t, ht, -, rfl, rfl⟩ := exists_of_asked h
      obtain ⟨e, before, after, hfolder, -⟩ := hr.grounded.exists_folder ht
      have hnodup := Item.ids_nodup_of_descend hr.distinct hfolder
      exact Item.rebuild?_isSome hfolder
        (Item.run?_replace hnodup (t.rewrite stamp.now content) rfl)
  | delete path =>
      rw [edit?] at h
      obtain ⟨t, ht, -, rfl, rfl⟩ := exists_of_asked h
      obtain ⟨e, before, after, hfolder, -⟩ := hr.grounded.exists_folder ht
      exact Item.rebuild?_isSome hfolder rfl

theorem plan?_isSome_iff (hr : root.WellFormed) :
    (change.plan? root stamp).isSome = true ↔ change.Feasible root := by
  have hedit : (change.edit? root stamp).isSome = true ↔ change.Feasible root :=
    edit?_isSome_iff hr.grounded
  rw [← hedit, ← Option.isSome_map (f := Plan.root), plan?_root]
  cases h : change.edit? root stamp with
  | none => rfl
  | some call => exact iff_of_true (rebuild?_edit hr h stamp.now) rfl

end Change

namespace Drive

-- What the desktop hears of a change, be it made or not.
def icons (d : Drive) (change : Change) (now : Moment) : List Icon :=
  ((d.commit? change now).bind Committed.icon).toList

-- On a well-formed tree a change is made exactly when it is feasible. One that is not leaves no
-- trace, and one that is never gets stuck when the tree is rebuilt.
theorem commit?_isSome_iff_feasible {d : Drive} (hr : d.root.WellFormed) (change : Change)
    (now : Moment) :
    ((d.commit? change now).isSome = true ↔ change.Feasible d.root) ∧
      (¬change.Feasible d.root → d.after change now = d ∧ d.icons change now = []) ∧
      ∀ names edit, change.edit? d.root ⟨d.nextId, now⟩ = some (names, edit) →
        (d.root.rebuild? now edit names).isSome = true := by
  have hiff : (d.commit? change now).isSome = true ↔ change.Feasible d.root := by
    rw [commit?_eq, Option.isSome_map]
    exact Change.plan?_isSome_iff hr
  refine ⟨hiff, fun hnot => ?_, fun names edit h => Change.rebuild?_edit hr h now⟩
  have hnone : d.commit? change now = none := by
    rw [← Option.not_isSome_iff_eq_none, hiff]
    exact hnot
  rw [after, icons, hnone]
  exact ⟨rfl, rfl⟩

-- A text of the guest's is free to change, and the drive as a whole is not free to go.
theorem commit?_isSome_iff_feasible_stock :
    (stock .epoch 1).root.WellFormed ∧
      ((stock .epoch 1).commit? (.update "/My Documents/todo.txt" "") .epoch).isSome = true ∧
      (stock .epoch 1).after (.delete "/My Computer/C:") .epoch = stock .epoch 1 ∧
      (stock .epoch 1).icons (.delete "/My Computer/C:") .epoch = [] := by
  have hr := wellFormed_stock .epoch 1
  have hupdate := commit?_isSome_iff_feasible hr (.update "/My Documents/todo.txt" "") .epoch
  have hdelete := commit?_isSome_iff_feasible hr (.delete "/My Computer/C:") .epoch
  refine ⟨hr, hupdate.1.mpr ?_, hdelete.2.1 ?_⟩
  · have hfile : ((stock .epoch 1).root.find? "/My Documents/todo.txt").map Item.isFolder =
        some false := by decide +kernel
    obtain ⟨x, hfind, hx⟩ := Option.map_eq_some_iff.mp hfile
    exact ⟨x, hfind, hx⟩
  · rintro ⟨x, hfind, -, hfree⟩
    have hguarded : ((stock .epoch 1).root.find? "/My Computer/C:").map (·.entry.isProtected) =
        some true := by decide +kernel
    rw [hfind] at hguarded
    have hself := hfree x (Item.self_mem_walk x)
    rw [Option.map_some, hself] at hguarded
    cases hguarded

end Drive

end DesktopShell

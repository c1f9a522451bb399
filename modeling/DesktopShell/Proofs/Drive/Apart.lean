import DesktopShell.Proofs.Drive.Feasible
import DesktopShell.Proofs.Tree.Commute

namespace DesktopShell

namespace Change

-- The path that a change is given.
def argument : Change → String
  | create _ folder _ => folder
  | update path _ => path
  | delete path => path

def updates : Change → Bool
  | update .. => true
  | create .. | delete _ => false

def deletes : Change → Bool
  | delete _ => true
  | create .. | update .. => false

-- Two changes about `x` and `y` that do not get in each other's way.
structure Apart (change change' : Change) (x y : Item) : Prop where
  spared : change.deletes = true → y ∉ x.walk
  spared' : change'.deletes = true → x ∉ y.walk
  folders : change.creates = true → change'.creates = true → x ≠ y
  files : change.updates = true → change'.updates = true → x ≠ y

-- What a change about `x` asks for: an edit of a folder, which is `x` itself when something is made
-- there, and else the one with `x` in it. Then no way is spared that leads to `x` or beyond.
structure Asks (root : Item) (i : ItemId) (change : Change) (x : Item) (names : List String)
    (edit : Edit) : Prop where
  about : edit.about = if change.creates then i else x.id
  inserts : edit.inserts = change.creates
  kind : change.creates = true → x.isFolder = true
  file : change.updates = true → x.isFolder = false
  here : change.creates = true → root.descend names = some x
  folder : ∃ e cs, root.descend names = some (.mk e (some cs)) ∧ x ∈ (Item.mk e (some cs)).walk
  spares : ∀ way y, root.descend way = some y → (change.creates = false → y ∉ x.walk) →
    root.Spares names edit way

variable {root x y : Item} {stamp : Stamp} {change change' : Change} {names names' : List String}
  {edit edit' : Edit}

section Target

variable {e : Entry} {before after : List Item} {t : Item}

-- A way past an item leads through no child with its name, nor through one with its number.
theorem ne_of_way_past {name : String} {rest : List String}
    (hd : (Item.mk e (some (before ++ t :: after))).ids.Nodup)
    (hfirst : ∀ b ∈ before, b.name ≠ t.name)
    (hy : (Item.mk e (some (before ++ t :: after))).descend (name :: rest) = some y)
    (hpast : y ∉ t.walk) :
    t.name ≠ name ∧ ∀ c ∈ before ++ t :: after, c.name = name → c.id ≠ t.id := by
  have hname : t.name ≠ name := by
    rintro rfl
    obtain ⟨c, hc, hy⟩ := Item.descend_cons.mp hy
    rw [Item.child?_mk hfirst rfl] at hc
    obtain rfl := Option.some.inj hc
    exact hpast (Item.mem_walk_of_descend hy)
  refine ⟨hname, fun c hc hcname hid => ?_⟩
  obtain ⟨hbefore, hafter⟩ := Item.id_ne_of_mem_siblings hd
  rcases List.mem_append.mp hc with hc | hc
  · exact hbefore c hc hid
  · rcases List.mem_cons.mp hc with rfl | hc
    · exact hname hcname
    · exact hafter c hc hid

theorem spares_of_target (hr : root.WellFormed)
    (hfolder : root.descend names = some (.mk e (some (before ++ t :: after))))
    (hfirst : ∀ b ∈ before, b.name ≠ t.name)
    (hedit : edit = .remove t.id ∨ ∃ now content, edit = .replace (t.rewrite now content))
    {way : List String} (hy : root.descend way = some y) (hpast : y ∉ t.walk) :
    root.Spares names edit way := by
  rintro name rest e' cs rfl hfolder'
  obtain ⟨rfl, hcs⟩ := Item.mk.inj (Option.some.inj (hfolder.symm.trans hfolder'))
  obtain rfl := Option.some.inj hcs
  obtain ⟨_, hfolder', hy⟩ := Item.descend_append.mp hy
  obtain rfl := Option.some.inj (hfolder.symm.trans hfolder')
  have hd := Item.ids_nodup_of_descend hr.distinct hfolder
  obtain ⟨hname, hids⟩ := ne_of_way_past hd hfirst hy hpast
  rcases hedit with rfl | ⟨now, content, rfl⟩
  · exact hids
  · exact ⟨hname, hids⟩

theorem mem_walk_folder : t ∈ (Item.mk e (some (before ++ t :: after))).walk :=
  Item.mem_walk.mpr (.inr ⟨t, List.mem_append_right before List.mem_cons_self, Item.self_mem_walk t⟩)

end Target

theorem eq_of_target? {p : String} (h : target? root p = some y) (hx : root.find? p = some x) :
    x = y :=
  Option.some.inj (hx.symm.trans (Option.filter_eq_some_iff.mp h).1)

theorem asks_of_edit? (hr : root.WellFormed) (hx : root.find? change.argument = some x)
    (h : change.edit? root stamp = some (names, edit)) : Asks root stamp.id change x names edit := by
  cases change with
  | create what folder name =>
      rw [edit?] at h
      obtain ⟨parent, hfind, hfolder, rfl, rfl⟩ := exists_of_asked h
      obtain rfl : x = parent := Option.some.inj (hx.symm.trans hfind)
      have hhere : root.descend (Path.segments x.path) = some x := by
        rw [hr.grounded.segments_path hfind]
        exact hfind
      obtain ⟨e, cs, rfl⟩ :=
        Item.exists_mk_of_isFolder (hr.placed.of_mem_walk (Item.mem_walk_of_descend hhere)) hfolder
      exact
        { about := Item.id_make stamp what name _
          inserts := rfl
          kind := fun _ => hfolder
          file := fun hu => (by cases hu)
          here := fun _ => hhere
          folder := ⟨e, cs, hhere, Item.self_mem_walk _⟩
          spares := fun _ _ _ _ _ _ _ _ _ _ => trivial }
  | update path content =>
      rw [edit?] at h
      obtain ⟨t, ht, hfile, rfl, rfl⟩ := exists_of_asked h
      obtain ⟨e, before, after, hfolder, hfirst⟩ := hr.grounded.exists_folder ht
      obtain rfl : x = t := eq_of_target? ht hx
      exact
        { about := rfl
          inserts := rfl
          kind := fun hc => (by cases hc)
          file := fun _ => by simpa using hfile
          here := fun hc => (by cases hc)
          folder := ⟨e, _, hfolder, mem_walk_folder⟩
          spares := fun way y hy hpast =>
            spares_of_target hr hfolder hfirst (.inr ⟨_, _, rfl⟩) hy (hpast rfl) }
  | delete path =>
      rw [edit?] at h
      obtain ⟨t, ht, -, rfl, rfl⟩ := exists_of_asked h
      obtain ⟨e, before, after, hfolder, hfirst⟩ := hr.grounded.exists_folder ht
      obtain rfl : x = t := eq_of_target? ht hx
      exact
        { about := rfl
          inserts := rfl
          kind := fun hc => (by cases hc)
          file := fun hu => (by cases hu)
          here := fun hc => (by cases hc)
          folder := ⟨e, _, hfolder, mem_walk_folder⟩
          spares := fun way y hy hpast =>
            spares_of_target hr hfolder hfirst (.inl rfl) hy (hpast rfl) }

theorem walk_of_file (hx : x.Placed) (hfile : x.isFolder = false) : x.walk = [x] := by
  obtain ⟨e, _ | cs⟩ := x
  · rw [Item.walk_eq]
    rfl
  · exact absurd (hfile.symm.trans hx.kind) (by simp [Item.children?])

theorem Apart.symm (h : Apart change change' x y) : Apart change' change y x :=
  ⟨h.spared', h.spared, fun hc hc' => (h.folders hc' hc).symm, fun hu hu' => (h.files hu' hu).symm⟩

-- Something is made in a folder that is not deleted.
theorem apart_create_delete {what : NewItem} {place name path : String} (h : x ∉ y.walk) :
    Apart (.create what place name) (.delete path) x y where
  spared hdeletes := absurd hdeletes Bool.false_ne_true
  spared' _ := h
  folders _ hcreates := absurd hcreates Bool.false_ne_true
  files hupdates := absurd hupdates Bool.false_ne_true

section Apart

variable {i i' : ItemId}

-- What is updated or deleted is not above what the other change is about, nor is it that itself.
theorem Apart.notMem_walk (h : Apart change change' x y) (hplaced : x.Placed)
    (hx : Asks root i change x names edit) (hy : Asks root i' change' y names' edit')
    (hc : change.creates = false) : y ∉ x.walk := by
  cases change with
  | create what folder name => cases hc
  | delete path => exact h.spared rfl
  | update path content =>
      rw [walk_of_file hplaced (hx.file rfl), List.mem_singleton]
      rintro rfl
      cases change' with
      | create what folder name => exact absurd ((hy.kind rfl).symm.trans (hx.file rfl)) (by simp)
      | update path' content' => exact h.files rfl rfl rfl
      | delete path' => exact h.spared' rfl (Item.self_mem_walk y)

theorem Apart.ne (h : Apart change change' x y) (hplaced : x.Placed)
    (hx : Asks root i change x names edit) (hy : Asks root i' change' y names' edit')
    (hc : change.creates = false) : x ≠ y := by
  rintro rfl
  exact h.notMem_walk hplaced hx hy hc (Item.self_mem_walk x)

theorem edit?_congr {root' : Item} (h : root'.find? change.argument = root.find? change.argument) :
    change.edit? root' stamp = change.edit? root stamp := by
  cases change with
  | create what folder name =>
      have h : root'.find? folder = root.find? folder := h
      rw [edit?, edit?, h]
  | update path content =>
      have h : root'.find? path = root.find? path := h
      rw [edit?, edit?, target?, target?, h]
  | delete path =>
      have h : root'.find? path = root.find? path := h
      rw [edit?, edit?, target?, target?, h]

-- A change asks for the same after another one that does not get in its way.
theorem edit?_rebuilt (hr : root.WellFormed) {root' : Item} {now : Moment} (stamp : Stamp)
    (hfind : root.find? change'.argument = some y) (h : Apart change change' x y)
    (hx : Asks root i change x names edit) (hy : Asks root i' change' y names' edit')
    (hrebuild : root.rebuild? now edit names = some root') :
    change'.edit? root' stamp = change'.edit? root stamp := by
  obtain ⟨e, cs, hfolder, hmem⟩ := hx.folder
  have hxplaced : x.Placed :=
    hr.placed.of_mem_walk (Item.mem_walk_trans hmem (Item.mem_walk_of_descend hfolder))
  have hspares := hx.spares _ y hfind (h.notMem_walk hxplaced hx hy)
  obtain ⟨y', hfind', rfl | ⟨more, rfl, hinner⟩⟩ := Item.descend_rebuild? hrebuild hspares hfind
  · exact edit?_congr (hfind'.trans hfind.symm)
  · cases change' with
    | create what folder name =>
        have hpath : y'.path = y.path := Item.entry_rebuild? (·.path) (fun _ => rfl) hinner
        have hkind : y'.entry.kind = y.entry.kind := Item.entry_rebuild? (·.kind) (fun _ => rfl) hinner
        have hfind : root.find? folder = some y := hfind
        have hfind' : root'.find? folder = some y' := hfind'
        rw [edit?, edit?, hfind, hfind', Option.filter_some, Option.filter_some, Item.isFolder,
          Item.isFolder, hkind]
        split
        · rw [Option.map_some, Option.map_some, hpath]
        · rfl
    | update path content =>
        have hyplaced : y.Placed := hr.placed.of_mem_walk (Item.mem_walk_of_descend hfind)
        obtain ⟨_, _ | _⟩ := y
        · simp [Item.rebuild?] at hinner
        · exact absurd ((hy.file rfl).symm.trans hyplaced.kind) (by simp [Item.children?])
    | delete path =>
        obtain ⟨_, hy', hinside⟩ := Item.descend_append.mp hfolder
        obtain rfl : y = _ := Option.some.inj (hfind.symm.trans hy')
        exact absurd (Item.mem_walk_trans hmem (Item.mem_walk_of_descend hinside)) (h.spared' rfl)

theorem Asks.mem_walk (hx : Asks root i change x names edit) : x ∈ root.walk := by
  obtain ⟨e, cs, hfolder, hmem⟩ := hx.folder
  exact Item.mem_walk_trans hmem (Item.mem_walk_of_descend hfolder)

theorem Apart.spares (h : Apart change change' x y) (hr : root.WellFormed)
    (hx : Asks root i change x names edit) (hy : Asks root i' change' y names' edit') :
    root.Spares names edit names' := by
  obtain ⟨e, cs, hfolder, hmem⟩ := hy.folder
  refine hx.spares names' _ hfolder fun hc hinside => ?_
  have hplaced := hr.placed.of_mem_walk hx.mem_walk
  exact h.notMem_walk hplaced hx hy hc (Item.mem_walk_trans hmem hinside)

-- The number of a new item may be that of no other item, since items are removed by number.
theorem Apart.about_ne (h : Apart change change' x y) (hr : root.WellFormed)
    (hx : Asks root i change x names edit) (hy : Asks root i' change' y names' edit')
    (hfresh : change.creates = true → i ∉ root.ids)
    (hfresh' : change'.creates = true → i' ∉ root.ids) (hsame : names = names') :
    edit.about ≠ edit'.about ∧ (edit.inserts = false ∨ edit'.inserts = false) := by
  have hxid := Item.id_mem_ids hx.mem_walk
  have hyid := Item.id_mem_ids hy.mem_walk
  rw [hx.about, hy.about, hx.inserts, hy.inserts]
  cases hc : change.creates with
  | false =>
      refine ⟨?_, .inl rfl⟩
      cases hc' : change'.creates with
      | false =>
          intro hid
          have hplaced := hr.placed.of_mem_walk hx.mem_walk
          exact h.ne hplaced hx hy hc (hr.eq_of_id hx.mem_walk hy.mem_walk hid)
      | true =>
          intro hid
          have hid : x.id = i' := hid
          exact hfresh' hc' (hid ▸ hxid)
  | true =>
      cases hc' : change'.creates with
      | false =>
          refine ⟨fun hid => ?_, .inr rfl⟩
          have hid : i = y.id := hid
          exact hfresh hc (hid ▸ hyid)
      | true =>
          have hhere := hx.here hc
          rw [hsame, hy.here hc'] at hhere
          exact absurd (Option.some.inj hhere).symm (h.folders hc hc')

theorem exists_rebuild? {plan : Plan} (h : change.plan? root stamp = some plan) :
    ∃ names edit, change.edit? root stamp = some (names, edit) ∧
      root.rebuild? stamp.now edit names = some plan.root := by
  have hroot := change.plan?_root root stamp
  rw [h, Option.map_some] at hroot
  obtain ⟨⟨names, edit⟩, hedit, hrebuild⟩ := Option.bind_eq_some_iff.mp hroot.symm
  exact ⟨names, edit, hedit, hrebuild⟩

theorem exists_plan? {root' : Item} (h : change.edit? root stamp = some (names, edit))
    (hrebuild : root.rebuild? stamp.now edit names = some root') :
    ∃ plan, change.plan? root stamp = some plan ∧ plan.root = root' := by
  have hroot := change.plan?_root root stamp
  rw [h, Option.bind_some] at hroot
  exact Option.map_eq_some_iff.mp (hroot.trans hrebuild)

-- At one time and with the numbers fixed beforehand, the order makes no difference at all.
theorem plan?_comm (hr : root.WellFormed) {now : Moment} {plan plan' : Plan}
    (hplan : change.plan? root ⟨i, now⟩ = some plan)
    (hplan' : change'.plan? root ⟨i', now⟩ = some plan')
    (hx : root.find? change.argument = some x) (hy : root.find? change'.argument = some y)
    (h : Apart change change' x y) (hfresh : change.creates = true → i ∉ root.ids)
    (hfresh' : change'.creates = true → i' ∉ root.ids) :
    ∃ both both', change'.plan? plan.root ⟨i', now⟩ = some both ∧
      change.plan? plan'.root ⟨i, now⟩ = some both' ∧ both.root = both'.root := by
  obtain ⟨names, edit, hedit, hrebuild⟩ := exists_rebuild? hplan
  obtain ⟨names', edit', hedit', hrebuild'⟩ := exists_rebuild? hplan'
  have hasks := asks_of_edit? hr hx hedit
  have hasks' := asks_of_edit? hr hy hedit'
  have hagain := edit?_rebuilt hr ⟨i', now⟩ hy h hasks hasks' hrebuild
  have hagain' := edit?_rebuilt hr ⟨i, now⟩ hx h.symm hasks' hasks hrebuild'
  rw [hedit'] at hagain
  rw [hedit] at hagain'
  have hcomm := Item.rebuild?_comm (Option.isSome_iff_exists.mpr ⟨_, hrebuild⟩)
    (Option.isSome_iff_exists.mpr ⟨_, hrebuild'⟩) (h.spares hr hasks hasks')
    (h.symm.spares hr hasks' hasks) (h.about_ne hr hasks hasks' hfresh hfresh')
  rw [hrebuild, hrebuild', Option.bind_some, Option.bind_some] at hcomm
  have hsome := rebuild?_edit (wellFormed_plan? hr hplan hfresh) hagain now
  obtain ⟨root', hroot'⟩ := Option.isSome_iff_exists.mp hsome
  obtain ⟨both, hboth, hbothroot⟩ := exists_plan? hagain hroot'
  obtain ⟨both', hboth', hbothroot'⟩ := exists_plan? hagain' (hcomm.symm.trans hroot')
  exact ⟨both, both', hboth, hboth', hbothroot.trans hbothroot'.symm⟩

end Apart

end Change

end DesktopShell

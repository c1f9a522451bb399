import DesktopShell.Proofs.Drive.Alike
import DesktopShell.Proofs.Drive.Apart
import DesktopShell.Proofs.Drive.Newcomers
import DesktopShell.Proofs.Tree.Without

namespace DesktopShell

namespace Change

variable {root x y : Item} {change change' : Change} {names names' : List String}
  {edit edit' : Edit}

section Clash

variable {i : ItemId} {now now' later later' : Moment} {plan plan' : Plan}

-- Two edits of one folder, one after the other, as far as the number of items goes.
theorem length_ids_rebuild? {root' root'' : Item} {e : Entry} {cs : List Item}
    (hfolder : root.descend names = some (.mk e (some cs)))
    (h : root.rebuild? now edit names = some root')
    (h' : root'.rebuild? later edit' names = some root'') :
    ∃ cs'', (edit.run? cs).bind edit'.run? = some cs'' ∧
      root''.ids.length + (cs.flatMap Item.ids).length =
        root.ids.length + (cs''.flatMap Item.ids).length := by
  obtain ⟨e₁, cs₁, cs', hrun, hex⟩ := Item.rebuild?_eq_some_iff.mp h
  obtain ⟨e₂, cs₂, cs'', hrun', hex'⟩ := Item.rebuild?_eq_some_iff.mp h'
  obtain ⟨rfl, hcs⟩ := Item.mk.inj (Option.some.inj (hfolder.symm.trans hex.descend))
  obtain rfl := Option.some.inj hcs
  have hbetween := hex.descend_new rfl
  obtain ⟨rfl, hcs⟩ := Item.mk.inj (Option.some.inj (hbetween.symm.trans hex'.descend))
  obtain rfl := Option.some.inj hcs
  refine ⟨cs'', by rw [hrun, Option.bind_some, hrun'], ?_⟩
  obtain ⟨front, back, hbefore, hmiddle⟩ := hex.exists_ids
  obtain ⟨front', back', hmiddle', hafter⟩ := hex'.exists_ids
  have hlength := congrArg List.length (hmiddle.symm.trans hmiddle')
  rw [hbefore, hafter]
  simp only [Item.ids_mk, List.length_append, List.length_cons] at hlength ⊢
  omega

-- What is found below the top has a name.
theorem isName_of_find? {p : String} (h : root.find? p = some y) (hne : Path.route p ≠ []) :
    Path.IsName y.name := by
  obtain ⟨names, hlast⟩ := Item.exists_route_of_find? h hne
  apply Path.isName_of_mem_route (p := p)
  rw [hlast]
  exact List.mem_append_right names List.mem_cons_self

theorem segments_parent_of_child (hr : root.WellFormed) (hx : root.find? change.argument = some x)
    (hy : root.find? change'.argument = some y) (hchild : y ∈ x.children) :
    Path.segments (Path.parent y.path) = Path.segments x.path := by
  have hxmem := Item.mem_walk_of_descend hx
  have hne : Path.route change'.argument ≠ [] := by
    intro htop
    rw [Item.find?, htop] at hy
    obtain rfl : root = y := Option.some.inj hy
    exact Item.not_mem_walk_of_child hchild hxmem
  rw [Path.segments_parent, (hr.placed.of_mem_walk hxmem).path_child hchild, Path.segments_join,
    Path.segments_of_isName (isName_of_find? hy hne), List.dropLast_concat]

theorem exists_rebuild?_again {root' : Item} (h : root.rebuild? now edit names = some root')
    (hruns : ∀ cs, (edit'.run? cs).isSome = true) :
    ∃ root'', root'.rebuild? later edit' names = some root'' := by
  obtain ⟨e, cs, cs', -, hex⟩ := Item.rebuild?_eq_some_iff.mp h
  obtain ⟨cs'', hrun⟩ := Option.isSome_iff_exists.mp (hruns cs')
  exact Option.isSome_iff_exists.mp (Item.rebuild?_isSome (hex.descend_new rfl) hrun)

-- An item that is added goes with all others of its number, unless it comes after they have gone.
theorem length_ids_of_removed {root' root'' both both' new new' : Item} {e : Entry} {cs : List Item}
    (hfolder : root.descend names = some (.mk e (some cs))) (hid : new.id = i)
    (hleaf : new'.ids.length = 1)
    (h : root.rebuild? now (.insert new) names = some root')
    (hboth : root'.rebuild? later (.remove i) names = some both)
    (h' : root.rebuild? now' (.remove i) names = some root'')
    (hboth' : root''.rebuild? later' (.insert new') names = some both') :
    both'.ids.length = both.ids.length + 1 := by
  obtain ⟨cs₁, hrun, hlength⟩ := length_ids_rebuild? hfolder h hboth
  obtain ⟨cs₂, hrun', hlength'⟩ := length_ids_rebuild? hfolder h' hboth'
  have hgone : [new].filter (·.id ≠ i) = [] := List.filter_cons_of_neg (by simp [hid])
  simp only [Edit.run?, Option.bind_some, List.filter_append, hgone, List.append_nil] at hrun hrun'
  obtain rfl := Option.some.inj hrun
  obtain rfl := Option.some.inj hrun'
  rw [List.flatMap_append, List.flatMap_singleton, List.length_append, hleaf] at hlength'
  omega

theorem edit?_create {what : NewItem} {folder name : String} (hx : root.find? folder = some x)
    (hfolder : x.isFolder = true) (stamp : Stamp) :
    (create what folder name).edit? root stamp =
      some (Path.segments x.path, .insert (what.make stamp name (Path.join x.path name))) := by
  rw [edit?, hx, Option.filter_some, if_pos hfolder]
  rfl

theorem edit?_delete {path : String} (hy : root.find? path = some y)
    (h : (delete path).edit? root stamp = some (names, edit)) :
    (names, edit) = (Path.segments (Path.parent y.path), .remove y.id) := by
  rw [edit?, Option.map_eq_some_iff] at h
  obtain ⟨t, ht, hcall⟩ := h
  obtain rfl : y = t := eq_of_target? (Option.filter_eq_some_iff.mp ht).1 hy
  exact hcall.symm

-- A new item with the number of one that is deleted from the same folder is deleted with it, unless it
-- is made afterwards.
theorem length_ids_of_clash (hr : root.WellFormed)
    (hplan : change.plan? root ⟨i, now⟩ = some plan)
    (hplan' : change'.plan? root ⟨i, now'⟩ = some plan')
    (hx : root.find? change.argument = some x) (hy : root.find? change'.argument = some y)
    (h : Apart change change' x y) (hc : change.creates = true) (hd : change'.deletes = true)
    (hchild : y ∈ x.children) (hid : y.id = i) (i' : ItemId) :
    ∃ both both', change'.plan? plan.root ⟨i', later⟩ = some both ∧
      change.plan? plan'.root ⟨i, later'⟩ = some both' ∧
      both'.root.ids.length = both.root.ids.length + 1 := by
  obtain ⟨names, edit, hedit, hrebuild⟩ := exists_rebuild? hplan
  obtain ⟨names', edit', hedit', hrebuild'⟩ := exists_rebuild? hplan'
  have hasks := asks_of_edit? hr hx hedit
  have hasks' := asks_of_edit? hr hy hedit'
  have hagain := edit?_rebuilt hr ⟨i', later⟩ hy h hasks hasks' hrebuild
  have hagain' := edit?_rebuilt hr ⟨i, later'⟩ hx h.symm hasks' hasks hrebuild'
  have hplace := segments_parent_of_child hr hx hy hchild
  have hhere := hasks.here hc
  have hkind := hasks.kind hc
  obtain ⟨e, cs, rfl⟩ :=
    Item.exists_mk_of_isFolder (hr.placed.of_mem_walk (Item.mem_walk_of_descend hhere)) hkind
  cases change with
  | update | delete => cases hc
  | create what folder name =>
      cases change' with
      | create | update => cases hd
      | delete path =>
          obtain ⟨rfl, rfl⟩ := Prod.mk.inj (Option.some.inj (hedit.symm.trans (edit?_create hx hkind _)))
          obtain ⟨rfl, rfl⟩ := Prod.mk.inj (edit?_delete hy hedit')
          have hagain := hagain.trans hedit'
          rw [hplace, hid] at hagain
          have hagain' := hagain'.trans (edit?_create hx hkind ⟨i, later'⟩)
          rw [hplace, hid] at hrebuild'
          obtain ⟨root₁, hroot₁⟩ : ∃ root₁, plan.root.rebuild? later (.remove i) _ = some root₁ :=
            exists_rebuild?_again hrebuild fun _ => rfl
          obtain ⟨root₂, hroot₂⟩ : ∃ root₂, plan'.root.rebuild? later' (.insert _) _ = some root₂ :=
            exists_rebuild?_again hrebuild' fun _ => rfl
          obtain ⟨both, hboth, rfl⟩ := exists_plan? hagain hroot₁
          obtain ⟨both', hboth', rfl⟩ := exists_plan? hagain' hroot₂
          refine ⟨both, both', hboth, hboth', ?_⟩
          have hleaf (path : String) := congrArg List.length (Item.ids_make ⟨i, later'⟩ what name path)
          exact length_ids_of_removed hhere (Item.id_make ⟨i, now⟩ what name _) (hleaf _) hrebuild
            hroot₁ hrebuild' hroot₂

end Clash

section Alike

variable {σ : Equiv.Perm ItemId} {root' : Item} {i i' : ItemId} {now now' : Moment}

theorem exists_plan?_alike (h : root.Alike σ root') (hi : change.creates = true → σ i = i')
    {plan : Plan} (hplan : change.plan? root ⟨i, now⟩ = some plan) :
    ∃ plan', change.plan? root' ⟨i', now'⟩ = some plan' ∧ plan.root.Alike σ plan'.root := by
  rcases plan?_cases h hi with ⟨hnone, -⟩ | ⟨_, plan', hsome, hplan', hroot, -⟩
  · rw [hnone] at hplan
    cases hplan
  · obtain rfl := Option.some.inj (hplan.symm.trans hsome)
    exact ⟨plan', hplan', hroot⟩

theorem exists_alike_plan? (h : root.Alike σ root') (hi : change.creates = true → σ i = i')
    {plan' : Plan} (hplan' : change.plan? root' ⟨i', now'⟩ = some plan') :
    ∃ plan, change.plan? root ⟨i, now⟩ = some plan ∧ plan.root.Alike σ plan'.root := by
  rcases plan?_cases h hi with ⟨-, hnone⟩ | ⟨plan, _, hplan, hsome, hroot, -⟩
  · rw [hnone] at hplan'
    cases hplan'
  · obtain rfl := Option.some.inj (hplan'.symm.trans hsome)
    exact ⟨plan, hplan, hroot⟩

end Alike

end Change

namespace Drive

-- Whoever comes first gets the first number.
theorem exists_renumbering {first second : Bool} {next : ItemId} {ids : List ItemId}
    (hfresh : first = true ∨ second = true → next ∉ ids)
    (hfresh' : first = true → second = true → next + 1 ∉ ids) :
    ∃ σ : Equiv.Perm ItemId, (∀ i ∈ ids, σ i = i) ∧
      (first = true → σ next = if second then next + 1 else next) ∧
      (second = true → σ (if first then next + 1 else next) = next) := by
  by_cases hboth : first = true ∧ second = true
  · obtain ⟨rfl, rfl⟩ := hboth
    refine ⟨Equiv.swap next (next + 1), fun i hi => ?_, fun _ => Equiv.swap_apply_left _ _,
      fun _ => Equiv.swap_apply_right _ _⟩
    apply Equiv.swap_apply_of_ne_of_ne
    · rintro rfl
      exact hfresh (.inl rfl) hi
    · rintro rfl
      exact hfresh' rfl rfl hi
  · refine ⟨1, fun i _ => rfl, fun hf => ?_, fun hs => ?_⟩
    · have hs : second = false := by simpa [hf] using hboth
      rw [hs]
      rfl
    · have hf : first = false := by simpa [hs] using hboth
      rw [hf]
      rfl

variable {d : Drive} {change change' : Change} {now now' later later' : Moment}
  {result result' : Committed} {x y : Item}

-- New items with numbers that are not taken differ in nothing but their numbers.
theorem commit?_comm_of_fresh (hr : d.root.WellFormed) (h : d.commit? change now = some result)
    (h' : d.commit? change' now' = some result') (hx : d.root.find? change.argument = some x)
    (hy : d.root.find? change'.argument = some y) (apart : Change.Apart change change' x y)
    (fresh : change.creates = true ∨ change'.creates = true → d.nextId ∉ d.root.ids)
    (fresh' : change.creates = true → change'.creates = true → d.nextId + 1 ∉ d.root.ids) :
    ∃ both both' σ, result.drive.commit? change' later = some both ∧
      result'.drive.commit? change later' = some both' ∧
      both.drive.root.Alike σ both'.drive.root ∧ (∀ i ∈ d.root.ids, σ i = i) ∧
      both'.drive.nextId = both.drive.nextId := by
  obtain ⟨plan, hplan, rfl⟩ := commit?_eq_some_iff.mp h
  obtain ⟨plan', hplan', rfl⟩ := commit?_eq_some_iff.mp h'
  obtain ⟨σ, hfixed, hnext, hnext'⟩ := exists_renumbering fresh fresh'
  have hself : d.root.Alike σ d.root := Item.recast_congr hfixed
  have hsecond : change'.creates = true →
      (if change.creates then d.nextId + 1 else d.nextId) ∉ d.root.ids := by
    intro hc'
    split
    · next hc => exact fresh' hc hc'
    · exact fresh (.inr hc')
  -- Both orders are gone through at one time, with the numbers that are given in the first order.
  obtain ⟨first, hfirst, hfirstroot⟩ : ∃ first,
      change.plan? d.root ⟨d.nextId, .epoch⟩ = some first ∧ plan.root.Alike 1 first.root :=
    Change.exists_plan?_alike (.refl d.root) (fun _ => rfl) hplan
  obtain ⟨first', hfirst', hfirstroot'⟩ := Change.exists_alike_plan? hself hnext' hplan'
  obtain ⟨both, both', hboth, hboth', hsame⟩ :=
    Change.plan?_comm hr hfirst hfirst' hx hy apart (fun hc => fresh (.inl hc)) hsecond
  obtain ⟨made, hmade, hmaderoot⟩ := Change.exists_alike_plan? hfirstroot (fun _ => rfl) hboth
  obtain ⟨made', hmade', hmaderoot'⟩ := Change.exists_plan?_alike hfirstroot' hnext hboth'
  refine ⟨_, _, σ, commit?_eq_some_iff.mpr ⟨made, hmade, rfl⟩,
    commit?_eq_some_iff.mpr ⟨made', hmade', rfl⟩, ?_, hfixed, ?_⟩
  · rw [hsame] at hmaderoot
    exact hmaderoot.trans hmaderoot'
  · show (if change.creates then _ else _) = if change'.creates then _ else _
    cases change.creates <;> cases change'.creates <;> rfl

theorem commit?_clash (hr : d.root.WellFormed) (h : d.commit? change now = some result)
    (h' : d.commit? change' now' = some result') (hx : d.root.find? change.argument = some x)
    (hy : d.root.find? change'.argument = some y) (apart : Change.Apart change change' x y)
    (hc : change.creates = true) (hd : change'.deletes = true) (hchild : y ∈ x.children)
    (hid : y.id = d.nextId) :
    ∃ both both', result.drive.commit? change' later = some both ∧
      result'.drive.commit? change later' = some both' ∧
      ∀ σ, ¬both.drive.root.Alike σ both'.drive.root := by
  obtain ⟨plan, hplan, rfl⟩ := commit?_eq_some_iff.mp h
  obtain ⟨plan', hplan', rfl⟩ := commit?_eq_some_iff.mp h'
  have hkept : change'.creates = false := by
    cases change' with
    | create => cases hd
    | update | delete => rfl
  obtain ⟨made, made', hmade, hmade', hlength⟩ :=
    Change.length_ids_of_clash hr hplan hplan' hx hy apart hc hd hchild hid
      (if change.creates then d.nextId + 1 else d.nextId)
  refine ⟨_, _, commit?_eq_some_iff.mpr ⟨made, hmade, rfl⟩,
    commit?_eq_some_iff.mpr ⟨made', ?_, rfl⟩, fun σ halike => ?_⟩
  · rw [hkept]
    exact hmade'
  · have hsame : made'.root.ids.length = (made.root.ids.map σ).length :=
      congrArg List.length (Item.Alike.ids_eq halike)
    rw [List.length_map] at hsame
    omega

-- Changes that do not get in each other's way can be made in either order, at whatever times. As long
-- as new items get numbers that are not taken, the trees differ at most in times and in which of two
-- new items has which number. A new item that gets the number of a sibling is not so lucky: it goes
-- with the sibling when that is deleted afterwards.
theorem commit?_comm (hr : d.root.WellFormed) (h : d.commit? change now = some result)
    (h' : d.commit? change' now' = some result') (hx : d.root.find? change.argument = some x)
    (hy : d.root.find? change'.argument = some y) (apart : Change.Apart change change' x y)
    (later later' : Moment) :
    ((change.creates = true ∨ change'.creates = true → d.nextId ∉ d.root.ids) →
      (change.creates = true → change'.creates = true → d.nextId + 1 ∉ d.root.ids) →
      ∃ both both' σ, result.drive.commit? change' later = some both ∧
        result'.drive.commit? change later' = some both' ∧
        both.drive.root.Alike σ both'.drive.root ∧ (∀ i ∈ d.root.ids, σ i = i) ∧
        both'.drive.nextId = both.drive.nextId) ∧
    (change.creates = true → change'.deletes = true → y ∈ x.children → y.id = d.nextId →
      ∃ both both', result.drive.commit? change' later = some both ∧
        result'.drive.commit? change later' = some both' ∧
        ∀ σ, ¬both.drive.root.Alike σ both'.drive.root) :=
  ⟨commit?_comm_of_fresh hr h h' hx hy apart, commit?_clash hr h h' hx hy apart⟩

-- A note on the desktop, and the one that is there goes.
theorem commit?_comm_desktop :
    (stock .epoch 1).root.WellFormed ∧
      ∃ result result' both both' σ,
        (stock .epoch 1).commit? (.create (.text "") "/Desktop" "readme.txt") .epoch = some result ∧
        (stock .epoch 1).commit? (.delete "/Desktop/readme.txt") .epoch = some result' ∧
        result.drive.commit? (.delete "/Desktop/readme.txt") .epoch = some both ∧
        result'.drive.commit? (.create (.text "") "/Desktop" "readme.txt") .epoch = some both' ∧
        both.drive.root.Alike σ both'.drive.root := by
  have hr := wellFormed_stock .epoch 1
  have hfacts : ((stock .epoch 1).commit? (.create (.text "") "/Desktop" "readme.txt") .epoch).isSome ∧
      ((stock .epoch 1).commit? (.delete "/Desktop/readme.txt") .epoch).isSome ∧
      ((stock .epoch 1).root.find? "/Desktop").map Item.id = some 21 ∧
      ((stock .epoch 1).root.find? "/Desktop/readme.txt").map Item.ids = some [22] := by
    decide +kernel
  obtain ⟨hcreate, hdelete, hx, hy⟩ := hfacts
  obtain ⟨result, h⟩ := Option.isSome_iff_exists.mp hcreate
  obtain ⟨result', h'⟩ := Option.isSome_iff_exists.mp hdelete
  obtain ⟨x, hx, hxid⟩ := Option.map_eq_some_iff.mp hx
  obtain ⟨y, hy, hyids⟩ := Option.map_eq_some_iff.mp hy
  have hspared : x ∉ y.walk := by
    intro hmem
    have hid := Item.id_mem_ids hmem
    rw [hxid, hyids] at hid
    exact absurd hid (by decide)
  have hfree : (stock .epoch 1).nextId ∉ (stock .epoch 1).root.ids :=
    Numbered.nextId_notMem (Layout.drive_above .epoch 1 stockLayout (by decide))
  obtain ⟨both, both', σ, hboth, hboth', halike, -⟩ :=
    (commit?_comm hr h h' hx hy (Change.apart_create_delete hspared) .epoch .epoch).1
      (fun _ => hfree) nofun
  exact ⟨hr, result, result', both, both', σ, h, h', hboth, hboth', halike⟩

-- One note has used up the last number.
def spent : Drive :=
  atBrim.after (.create (.text "") "/" "p.txt") .epoch

-- The next note gets the number of the text that is there, and goes with it.
theorem not_commit?_comm_spent :
    spent.root.WellFormed ∧
      ∃ result result' x y, spent.commit? (.create (.text "") "/" "n.txt") .epoch = some result ∧
        spent.commit? (.delete "/zero.txt") .epoch = some result' ∧
        spent.root.find? "/" = some x ∧ spent.root.find? "/zero.txt" = some y ∧
        Change.Apart (.create (.text "") "/" "n.txt") (.delete "/zero.txt") x y ∧
        ∃ both both', result.drive.commit? (.delete "/zero.txt") .epoch = some both ∧
          result'.drive.commit? (.create (.text "") "/" "n.txt") .epoch = some both' ∧
          ∀ σ, ¬both.drive.root.Alike σ both'.drive.root := by
  have hfree : atBrim.nextId ∉ atBrim.root.ids := by decide +kernel
  have hr : spent.root.WellFormed :=
    (after_step atBrim _ .epoch).wellFormed (fun _ => hfree) (wellFormed_ofSnapshot ofSnapshot_brim)
  have hfacts : (spent.commit? (.create (.text "") "/" "n.txt") .epoch).isSome ∧
      (spent.commit? (.delete "/zero.txt") .epoch).isSome ∧
      (spent.root.find? "/zero.txt").map Item.ids = some [0] ∧ spent.nextId = 0 ∧
      spent.root.id = 18446744073709551614 := by
    decide +kernel
  obtain ⟨hcreate, hdelete, hy, hnext, htop⟩ := hfacts
  obtain ⟨result, h⟩ := Option.isSome_iff_exists.mp hcreate
  obtain ⟨result', h'⟩ := Option.isSome_iff_exists.mp hdelete
  obtain ⟨y, hy, hyids⟩ := Option.map_eq_some_iff.mp hy
  have hx : spent.root.find? "/" = some spent.root := rfl
  have hchild : y ∈ spent.root.children := by
    have hroute : Path.route "/zero.txt" = ["zero.txt"] := by decide +kernel
    rw [Item.find?, hroute] at hy
    obtain ⟨c, hc, hself⟩ := Item.descend_cons.mp hy
    obtain rfl : c = y := Option.some.inj hself
    exact Item.mem_children_of_child? hc
  have hspared : spent.root ∉ y.walk := by
    intro hmem
    have hid := Item.id_mem_ids hmem
    rw [htop, hyids] at hid
    exact absurd hid (by decide)
  have hid : y.id = spent.nextId := by
    rw [Item.ids_eq] at hyids
    exact (List.cons.inj hyids).1.trans hnext.symm
  have apart : Change.Apart (.create (.text "") "/" "n.txt") (.delete "/zero.txt") spent.root y :=
    Change.apart_create_delete hspared
  exact ⟨hr, result, result', spent.root, y, h, h', hx, hy, apart,
    commit?_clash hr h h' hx hy apart rfl rfl hchild hid⟩

end Drive

end DesktopShell

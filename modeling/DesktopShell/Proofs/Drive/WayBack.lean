import DesktopShell.Proofs.Drive.Feasible
import DesktopShell.Proofs.Tree.Without

namespace DesktopShell.Item

section Folder

variable {root x y z c d : Item} {cs : List Item} {i : ItemId}

-- Of several items side by side only one has a number in it.
theorem eq_of_mem_ids (hcs : (cs.flatMap ids).Nodup) (hc : c ∈ cs) (hd : d ∈ cs)
    (hci : i ∈ c.ids) (hdi : i ∈ d.ids) : d = c := by
  obtain ⟨before, after, rfl⟩ := List.append_of_mem hc
  obtain ⟨hbefore, hafter⟩ := not_mem_siblings hcs hci
  rcases List.mem_append.mp hd with hd | hd
  · exact absurd (List.mem_flatMap.mpr ⟨d, hd, hdi⟩) hbefore
  · rcases List.mem_cons.mp hd with rfl | hd
    · rfl
    · exact absurd (List.mem_flatMap.mpr ⟨d, hd, hdi⟩) hafter

theorem nodup_ids_child (hx : x.ids.Nodup) (hc : c ∈ x.children) : c.ids.Nodup := by
  rw [ids_eq] at hx
  exact (List.nodup_flatMap.mp (List.nodup_cons.mp hx).2).1 c hc

-- Where no number is given twice an item is in one folder.
theorem eq_of_mem_children (hroot : root.ids.Nodup) (hy : y ∈ root.walk) (hz : z ∈ root.walk)
    (hxy : x ∈ y.children) (hxz : x ∈ z.children) : z = y := by
  induction root using childInduction with
  | step root ih =>
      have hchildren : (root.children.flatMap ids).Nodup := by
        rw [ids_eq] at hroot
        exact (List.nodup_cons.mp hroot).2
      have hbelow {c y : Item} (hy : y ∈ c.walk) (hxy : x ∈ y.children) : x.id ∈ c.ids :=
        id_mem_ids (mem_walk_trans (mem_walk.mpr (.inr ⟨x, hxy, self_mem_walk x⟩)) hy)
      rcases mem_walk.mp hy with rfl | ⟨c, hc, hyc⟩ <;>
        rcases mem_walk.mp hz with rfl | ⟨d, hd, hzd⟩
      · rfl
      · -- `x` itself would be the child of the top with `z` in it.
        obtain rfl := eq_of_mem_ids hchildren hxy hd (id_mem_ids (self_mem_walk x)) (hbelow hzd hxz)
        exact absurd hzd (not_mem_walk_of_child hxz)
      · obtain rfl := eq_of_mem_ids hchildren hxz hc (id_mem_ids (self_mem_walk x)) (hbelow hyc hxy)
        exact absurd hyc (not_mem_walk_of_child hxy)
      · obtain rfl := eq_of_mem_ids hchildren hc hd (hbelow hyc hxy) (hbelow hzd hxz)
        exact ih d hd (nodup_ids_child hroot hd) hyc hzd

end Folder

-- To rebuild a tree at the end of a way is to edit the item there and to put it in its own place.
theorem rebuild?_iff_of_descend {root root' x : Item} {names : List String} {now : Moment}
    {edit : Edit} (h : root.descend names = some x) :
    root.rebuild? now edit names = some root' ↔
      ∃ x', x.rebuild? now edit [] = some x' ∧ Exchange x x' names root root' := by
  rw [rebuild?_eq_some_iff]
  constructor
  · rintro ⟨e, cs, cs', hrun, hex⟩
    obtain rfl : x = mk e (some cs) := Option.some.inj (h.symm.trans hex.descend)
    exact ⟨_, rebuild?_eq_some_iff.mpr ⟨e, cs, cs', hrun, .here⟩, hex⟩
  · rintro ⟨x', hx', hex⟩
    obtain ⟨e, cs, cs', hrun, hedited⟩ := rebuild?_eq_some_iff.mp hx'
    cases hedited
    exact ⟨e, cs, cs', hrun, hex⟩

-- An item that has been found at `p` is found again by its own path, without shortcuts: by name from
-- folder to folder, the first of each name. The way leads to no other item, and it is the way on
-- which the tree is rebuilt. All but the last name lead to the one folder that the item is in.
structure LeadsBack (root : Item) (p : String) (x : Item) : Prop where
  spelled : Path.segments x.path =
    Path.segments (Path.normalize (Path.followShortcut (Path.normalize p)))
  reached : root.descend (Path.segments x.path) = some x
  only : ∀ y ∈ root.walk, y.id = x.id → y = x
  rebuilt : ∀ now edit root', root.rebuild? now edit (Path.segments x.path) = some root' ↔
    ∃ x', x.rebuild? now edit [] = some x' ∧ Exchange x x' (Path.segments x.path) root root'
  folder : x ≠ root → ∃ parent,
    root.descend (Path.segments (Path.parent x.path)) = some parent ∧
      parent.child? x.name = some x ∧ ∀ y ∈ root.walk, x ∈ y.children ↔ y = parent

variable {root x : Item} {p : String}

theorem exists_parent (hr : root.WellFormed) (hfind : root.find? p = some x) (hne : x ≠ root) :
    ∃ parent, root.descend (Path.segments (Path.parent x.path)) = some parent ∧
      parent.child? x.name = some x ∧ ∀ y ∈ root.walk, x ∈ y.children ↔ y = parent := by
  have htarget := (Change.target?_eq_some_iff hr.grounded).mpr ⟨hfind, hne⟩
  obtain ⟨e, before, after, hparent, hfirst⟩ := hr.grounded.exists_folder htarget
  have hchild : (mk e (some (before ++ x :: after))).child? x.name = some x := child?_mk hfirst rfl
  refine ⟨_, hparent, hchild, fun y hy => ⟨fun hx => ?_, ?_⟩⟩
  · exact eq_of_mem_children hr.distinct (mem_walk_of_descend hparent) hy
      (mem_children_of_child? hchild) hx
  · rintro rfl
    exact mem_children_of_child? hchild

theorem leadsBack_of_find? (accepted : Snapshot.flaw? root = none) (hfind : root.find? p = some x) :
    root.LeadsBack p x := by
  have hr := (Snapshot.flaw?_eq_none_iff root).mp accepted
  have hspelled := hr.grounded.segments_path hfind
  have hreached : root.descend (Path.segments x.path) = some x := by
    rw [hspelled]
    exact hfind
  constructor
  case spelled =>
    rw [Path.segments_normalize]
    exact hspelled
  case reached => exact hreached
  case only => exact fun y hy => hr.eq_of_id hy (mem_walk_of_descend hreached)
  case rebuilt => exact fun _ _ _ => rebuild?_iff_of_descend hreached
  case folder => exact exists_parent hr hfind

-- A top that is spelled with several slashes, and below it two folders of one name and a file whose
-- name has a slash.
def oddlySpelled : Item :=
  .mk { (Item.root ⟨1, .epoch⟩).entry with path := "///" }
    (some (Layout.buildAll .epoch "///" 2
      [ .folder "a" .free [.text "b/c" .free "", .folder "b" .free [.text "c" .free ""]],
        .folder "a" .free [.text "b" .free ""] ]).1)

theorem accepted_oddlySpelled : Snapshot.flaw? oddlySpelled = none := by
  have hbuilt := Layout.built_buildAll .epoch "///" 2
    [ .folder "a" .free [.text "b/c" .free "", .folder "b" .free [.text "c" .free ""]],
      .folder "a" .free [.text "b" .free ""] ]
  refine (Snapshot.flaw?_eq_none_iff _).mpr ⟨rfl, by decide, ?_, ?_⟩
  · exact placed_folder_iff.mpr ⟨rfl, hbuilt.placed⟩
  · rw [oddlySpelled, ids_mk, hbuilt.ids]
    decide

theorem leadsBack_of_find?_oddlySpelled :
    Snapshot.flaw? oddlySpelled = none ∧ ∃ x, oddlySpelled.find? "My Computer//a/b/c/" = some x ∧
      x.id = 5 ∧ oddlySpelled.LeadsBack "My Computer//a/b/c/" x := by
  have hfact : (oddlySpelled.find? "My Computer//a/b/c/").map (·.id) = some 5 := by decide +kernel
  obtain ⟨x, hfind, hid⟩ := Option.map_eq_some_iff.mp hfact
  exact ⟨accepted_oddlySpelled, x, hfind, hid, leadsBack_of_find? accepted_oddlySpelled hfind⟩

end DesktopShell.Item

import DesktopShell.Drive.Change
import DesktopShell.Proofs.Path.Follow
import DesktopShell.Proofs.Tree.Exchange

namespace DesktopShell

-- What a folder keeps of itself when its children are changed.
def Entry.touch (now : Moment) (e : Entry) : Entry :=
  { e with modified := now }

namespace Item

-- A file with another text.
def rewrite (now : Moment) (content : String) (x : Item) : Item :=
  .mk { x.entry with content := some content, modified := now } x.children?

-- A tree in which paths lead where they say, whether or not its numbers are distinct.
structure Grounded (root : Item) : Prop where
  folder : root.isFolder = true
  top : Path.isRoot root.path = true
  placed : root.Placed

theorem wellFormed_iff {root : Item} : root.WellFormed ↔ root.Grounded ∧ root.ids.Nodup :=
  ⟨fun h => ⟨⟨h.folder, h.top, h.placed⟩, h.distinct⟩,
    fun ⟨h, hd⟩ => ⟨h.folder, h.top, h.placed, hd⟩⟩

theorem WellFormed.grounded {root : Item} (h : root.WellFormed) : root.Grounded :=
  (wellFormed_iff.mp h).1

section Grounded

variable {root x t : Item} {p : String}

theorem Grounded.segments_path (hr : root.Grounded) (h : root.find? p = some x) :
    Path.segments x.path = Path.route p := by
  rw [find?] at h
  have hs := segments_path_of_descend hr.placed (fun _ => Path.isName_of_mem_route) h
  rwa [(Path.isRoot_iff _).mp hr.top, List.nil_append] at hs

-- An item is found again by its own path unless a shortcut comes first in it.
theorem Grounded.find?_path_iff (hr : root.Grounded) (hfind : root.find? p = some x) :
    root.find? x.path = some x ↔ Path.IsDirect (Path.segments x.path) := by
  constructor
  · intro hagain
    have hroute := hr.segments_path hagain
    rw [Path.route_eq] at hroute
    by_contra hdirect
    exact Path.expand_ne hdirect hroute.symm
  · intro hdirect
    rw [find?, Path.route_eq, Path.expand_of_isDirect hdirect, hr.segments_path hfind]
    exact hfind

-- The way to an item below the top ends with its name.
theorem exists_route_of_find? (h : root.find? p = some x) (hne : Path.route p ≠ []) :
    ∃ names, Path.route p = names ++ [x.name] := by
  obtain ⟨names, name, hlast⟩ := (List.eq_nil_or_concat _).resolve_left hne
  rw [List.concat_eq_append] at hlast
  rw [find?, hlast] at h
  obtain ⟨folder, -, hx⟩ := descend_append.mp h
  obtain ⟨c, hc, hx⟩ := descend_cons.mp hx
  obtain rfl : c = x := Option.some.inj hx
  obtain ⟨_, _, _, rfl, _⟩ := child?_eq_some_iff.mp hc
  exact ⟨names, hlast⟩

theorem Grounded.route_eq_concat (hr : root.Grounded) (h : Change.target? root p = some t) :
    Path.route p = Path.segments (Path.parent t.path) ++ [t.name] := by
  obtain ⟨hfind, htop⟩ := Option.filter_eq_some_iff.mp h
  have hroute := hr.segments_path hfind
  have hne : Path.route p ≠ [] := by
    rw [← hroute]
    simpa [Path.isRoot] using htop
  obtain ⟨names, hlast⟩ := exists_route_of_find? hfind hne
  rw [Path.segments_parent, hroute, hlast, List.dropLast_concat]

-- The item about which an update or a deletion is stands in a folder, the first of its name.
theorem Grounded.exists_folder (hr : root.Grounded) (h : Change.target? root p = some t) :
    ∃ e before after,
      root.descend (Path.segments (Path.parent t.path)) =
        some (.mk e (some (before ++ t :: after))) ∧
      ∀ y ∈ before, y.name ≠ t.name := by
  have hfind := (Option.filter_eq_some_iff.mp h).1
  rw [find?, hr.route_eq_concat h, descend_append] at hfind
  obtain ⟨folder, hfolder, ht⟩ := hfind
  obtain ⟨c, hc, ht⟩ := descend_cons.mp ht
  obtain rfl : c = t := Option.some.inj ht
  obtain ⟨e, before, after, rfl, -, hfirst⟩ := exists_mk_of_child? hc
  exact ⟨e, before, after, hfolder, hfirst⟩

end Grounded

section Distinct

variable {root x t : Item} {names : List String} {e : Entry} {before after : List Item}

theorem ids_nodup_of_descend (hr : root.ids.Nodup) (h : root.descend names = some x) :
    x.ids.Nodup := by
  obtain ⟨_, hx⟩ := exists_exchange h x
  obtain ⟨front, back, he, -⟩ := hx.entries
  rw [ids, he, List.map_append, List.map_append] at hr
  exact (List.nodup_append.mp (List.nodup_append.mp hr).1).2.1

theorem id_mem_flatMap_ids {y : Item} {cs : List Item} (h : y ∈ cs) : y.id ∈ cs.flatMap ids :=
  List.mem_flatMap.mpr ⟨y, h, id_mem_ids (self_mem_walk y)⟩

-- A number in one child is in no other one.
theorem not_mem_siblings {id : ItemId} (h : ((before ++ t :: after).flatMap ids).Nodup)
    (hid : id ∈ t.ids) : id ∉ before.flatMap ids ∧ id ∉ after.flatMap ids := by
  rw [List.flatMap_append, List.flatMap_cons] at h
  obtain ⟨-, hrest, hfront⟩ := List.nodup_append.mp h
  obtain ⟨-, -, hback⟩ := List.nodup_append.mp hrest
  constructor
  · intro hb
    exact hfront id hb id (List.mem_append_left _ hid) rfl
  · intro ha
    exact hback id hid id ha rfl

-- Among the children of one folder a number picks out one.
theorem id_ne_of_mem_siblings (h : (mk e (some (before ++ t :: after))).ids.Nodup) :
    (∀ y ∈ before, y.id ≠ t.id) ∧ ∀ y ∈ after, y.id ≠ t.id := by
  rw [ids_mk] at h
  obtain ⟨hb, ha⟩ := not_mem_siblings (List.nodup_cons.mp h).2 (id_mem_ids (self_mem_walk t))
  constructor
  · intro y hy he
    exact hb (he ▸ id_mem_flatMap_ids hy)
  · intro y hy he
    exact ha (he ▸ id_mem_flatMap_ids hy)

theorem run?_replace (h : (mk e (some (before ++ t :: after))).ids.Nodup) (t' : Item)
    (hid : t'.id = t.id) :
    (Edit.replace t').run? (before ++ t :: after) = some (before ++ t' :: after) := by
  refine updateFirst?_eq_some_iff.mpr ⟨before, t, t', after, rfl, fun y hy => ?_, ?_, rfl, rfl⟩
  · simpa [hid] using (id_ne_of_mem_siblings h).1 y hy
  · simpa using hid.symm

theorem run?_remove (h : (mk e (some (before ++ t :: after))).ids.Nodup) :
    (Edit.remove t.id).run? (before ++ t :: after) = some (before ++ after) := by
  obtain ⟨hbefore, hafter⟩ := id_ne_of_mem_siblings h
  rw [Edit.run?, List.filter_append, List.filter_cons_of_neg (by simp)]
  congr 2
  · exact List.filter_eq_self.mpr fun y hy => by simpa using hbefore y hy
  · exact List.filter_eq_self.mpr fun y hy => by simpa using hafter y hy

end Distinct

end Item

namespace Change

variable {root : Item} {stamp : Stamp} {plan : Plan}

-- Make a plan about what has been found, unless that is refused.
def planned (found? : Option Item) (refuses : Item → Bool) (after? : Item → Option Item)
    (subject : Item → Item) : Option Plan :=
  found?.bind fun x =>
    if refuses x then none else (after? x).bind fun after => some ⟨after, subject x⟩

theorem planned_eq_some_iff {found? : Option Item} {refuses : Item → Bool}
    {after? : Item → Option Item} {subject : Item → Item} :
    planned found? refuses after? subject = some plan ↔
      ∃ x, found? = some x ∧ refuses x = false ∧ plan.subject = subject x ∧
        after? x = some plan.root := by
  unfold planned
  rw [Option.bind_eq_some_iff]
  refine exists_congr fun x => and_congr_right fun _ => ?_
  constructor
  · intro h
    split at h
    · cases h
    · next hx =>
        obtain ⟨after, hafter, hplan⟩ := Option.bind_eq_some_iff.mp h
        obtain rfl := Option.some.inj hplan
        exact ⟨by simpa using hx, rfl, hafter⟩
  · rintro ⟨hx, hsubject, hafter⟩
    rw [if_neg (by simp [hx]), hafter, ← hsubject]
    rfl

theorem planned_self_iff {found? : Option Item} {refuses : Item → Bool}
    {after? : Item → Option Item} :
    planned found? refuses after? (fun t => t) = some plan ↔
      found? = some plan.subject ∧ refuses plan.subject = false ∧
        after? plan.subject = some plan.root := by
  rw [planned_eq_some_iff]
  constructor
  · rintro ⟨t, ht, hallowed, rfl, hafter⟩
    exact ⟨ht, hallowed, hafter⟩
  · rintro ⟨ht, hallowed, hafter⟩
    exact ⟨_, ht, hallowed, rfl, hafter⟩

variable (root stamp)

theorem planned_create (what : NewItem) (folder name : String) :
    plan? root stamp (.create what folder name) =
      planned (root.find? folder) (fun parent => !parent.isFolder)
        (fun parent => root.rebuild? stamp.now
          (.insert (what.make stamp name (Path.join parent.path name))) (Path.segments parent.path))
        (fun parent => what.make stamp name (Path.join parent.path name)) := by
  rw [plan?, planned]
  rfl

theorem planned_update (path content : String) :
    plan? root stamp (.update path content) =
      planned (target? root path) Item.isFolder
        (fun t => root.rebuild? stamp.now (.replace (t.rewrite stamp.now content))
          (Path.segments (Path.parent t.path)))
        (fun t => t) := by
  rw [plan?, planned]
  rfl

theorem planned_delete (path : String) :
    plan? root stamp (.delete path) =
      planned (target? root path) Item.containsProtected
        (fun t => root.rebuild? stamp.now (.remove t.id) (Path.segments (Path.parent t.path)))
        (fun t => t) := by
  rw [plan?, planned]
  rfl

variable {root stamp}

theorem plan?_create {what : NewItem} {folder name : String} :
    plan? root stamp (.create what folder name) = some plan ↔
      ∃ parent, root.find? folder = some parent ∧ parent.isFolder = true ∧
        plan.subject = what.make stamp name (Path.join parent.path name) ∧
        root.rebuild? stamp.now (.insert plan.subject) (Path.segments parent.path) =
          some plan.root := by
  rw [planned_create, planned_eq_some_iff]
  refine exists_congr fun parent => and_congr_right fun _ => and_congr (by simp) ?_
  exact and_congr_right fun hsubject => by rw [hsubject]

theorem plan?_update {path content : String} :
    plan? root stamp (.update path content) = some plan ↔
      target? root path = some plan.subject ∧ plan.subject.isFolder = false ∧
        root.rebuild? stamp.now (.replace (plan.subject.rewrite stamp.now content))
          (Path.segments (Path.parent plan.subject.path)) = some plan.root := by
  rw [planned_update, planned_self_iff]

theorem plan?_delete {path : String} :
    plan? root stamp (.delete path) = some plan ↔
      target? root path = some plan.subject ∧ plan.subject.containsProtected = false ∧
        root.rebuild? stamp.now (.remove plan.subject.id)
          (Path.segments (Path.parent plan.subject.path)) = some plan.root := by
  rw [planned_delete, planned_self_iff]

-- A new item becomes the last child of its folder.
theorem plan?_create_iff (hr : root.Grounded) {what : NewItem} {folder name : String} :
    plan? root stamp (.create what folder name) = some plan ↔
      ∃ e cs, root.find? folder = some (.mk e (some cs)) ∧
        plan.subject = what.make stamp name (Path.join e.path name) ∧
        Item.Exchange (.mk e (some cs)) (.mk (e.touch stamp.now) (some (cs ++ [plan.subject])))
          (Path.route folder) root plan.root := by
  rw [plan?_create]
  constructor
  · rintro ⟨parent, hfind, hf, hsubject, hafter⟩
    rw [hr.segments_path hfind] at hafter
    obtain ⟨e, cs, cs', hrun, hex⟩ := Item.rebuild?_eq_some_iff.mp hafter
    obtain rfl : cs ++ [plan.subject] = cs' := Option.some.inj hrun
    obtain rfl : parent = .mk e (some cs) := Option.some.inj (hfind.symm.trans hex.descend)
    exact ⟨e, cs, hfind, hsubject, hex⟩
  · rintro ⟨e, cs, hfind, hsubject, hex⟩
    have hf : (Item.mk e (some cs)).isFolder = true := (hex.placed_inner hr.placed).kind
    refine ⟨_, hfind, hf, hsubject, ?_⟩
    rw [hr.segments_path hfind]
    exact Item.rebuild?_eq_some_iff.mpr ⟨e, cs, _, rfl, hex⟩

-- To edit the folder of an item by number is to put `others` in the item's own place.
theorem rebuild?_target_iff (hr : root.WellFormed) {now : Moment} {path : String} {t root' : Item}
    (ht : target? root path = some t) {edit : Edit} (others : List Item)
    (hrun : ∀ e before after, (Item.mk e (some (before ++ t :: after))).ids.Nodup →
      edit.run? (before ++ t :: after) = some (before ++ (others ++ after))) :
    root.rebuild? now edit (Path.segments (Path.parent t.path)) = some root' ↔
      ∃ e before after, (∀ y ∈ before, y.name ≠ t.name) ∧
        Item.Exchange (.mk e (some (before ++ t :: after)))
          (.mk (e.touch now) (some (before ++ (others ++ after))))
          (Path.segments (Path.parent t.path)) root root' := by
  rw [Item.rebuild?_eq_some_iff]
  obtain ⟨e, before, after, hfolder, hfirst⟩ := hr.grounded.exists_folder ht
  have hnodup := Item.ids_nodup_of_descend hr.distinct hfolder
  constructor
  · rintro ⟨e', cs, cs', hrun', hex⟩
    obtain ⟨rfl, hcs⟩ := Item.mk.inj (Option.some.inj (hex.descend.symm.trans hfolder))
    obtain rfl := Option.some.inj hcs
    obtain rfl := Option.some.inj (hrun'.symm.trans (hrun e' before after hnodup))
    exact ⟨e', before, after, hfirst, hex⟩
  · rintro ⟨e', before', after', -, hex⟩
    have hnodup' := Item.ids_nodup_of_descend hr.distinct hex.descend
    exact ⟨e', _, _, hrun e' before' after' hnodup', hex⟩

-- An updated file stays where it was among its siblings.
theorem plan?_update_iff (hr : root.WellFormed) {path content : String} :
    plan? root stamp (.update path content) = some plan ↔
      target? root path = some plan.subject ∧ plan.subject.isFolder = false ∧
        ∃ e before after, (∀ y ∈ before, y.name ≠ plan.subject.name) ∧
          Item.Exchange (.mk e (some (before ++ plan.subject :: after)))
            (.mk (e.touch stamp.now)
              (some (before ++ plan.subject.rewrite stamp.now content :: after)))
            (Path.segments (Path.parent plan.subject.path)) root plan.root := by
  rw [plan?_update]
  refine and_congr_right fun ht => and_congr_right fun _ => ?_
  exact rebuild?_target_iff hr ht [_] fun e before after h =>
    Item.run?_replace h _ rfl

theorem plan?_delete_iff (hr : root.WellFormed) {path : String} :
    plan? root stamp (.delete path) = some plan ↔
      target? root path = some plan.subject ∧ plan.subject.containsProtected = false ∧
        ∃ e before after, (∀ y ∈ before, y.name ≠ plan.subject.name) ∧
          Item.Exchange (.mk e (some (before ++ plan.subject :: after)))
            (.mk (e.touch stamp.now) (some (before ++ after)))
            (Path.segments (Path.parent plan.subject.path)) root plan.root := by
  rw [plan?_delete]
  refine and_congr_right fun ht => and_congr_right fun _ => ?_
  exact rebuild?_target_iff hr ht [] fun e before after h => Item.run?_remove h

end Change

end DesktopShell

import DesktopShell.Proofs.Drive.Change
import Mathlib.Data.List.Perm.Subperm

namespace DesktopShell

-- What an item that stays on a drive keeps: all but its text and the time of its last change.
def Entry.Kept (e e' : Entry) : Prop :=
  e' = { e with content := e'.content, modified := e'.modified }

namespace Entry.Kept

theorem refl (e : Entry) : e.Kept e := rfl

theorem trans {e e' e'' : Entry} (h : e.Kept e') (h' : e'.Kept e'') : e.Kept e'' := by
  unfold Kept at *
  rw [h', h]

theorem touch (now : Moment) (e : Entry) : e.Kept (e.touch now) := rfl

variable {e e' : Entry}

theorem id_eq (h : e.Kept e') : e'.id = e.id := by rw [h]

theorem name_eq (h : e.Kept e') : e'.name = e.name := by rw [h]

theorem path_eq (h : e.Kept e') : e'.path = e.path := by rw [h]

theorem payload_eq (h : e.Kept e') : e'.payload = e.payload := by rw [h]

theorem isProtected_eq (h : e.Kept e') : e'.isProtected = e.isProtected := by rw [h]

end Entry.Kept

namespace Change

-- The number that a change gives away.
def newIds (stamp : Stamp) (change : Change) : List ItemId :=
  if change.creates then [stamp.id] else []

-- What changes do to the children of the one folder that they touch, which lies at `place`.
inductive Adjusted (stamp : Stamp) (place : String) : Change → List Item → List Item → Prop
  | create (what : NewItem) (folder name : String) (cs : List Item) :
      Adjusted stamp place (.create what folder name) cs
        (cs ++ [what.make stamp name (Path.join place name)])
  | update (path content : String) (before after : List Item) (t : Item)
      (file : t.isFolder = false) :
      Adjusted stamp place (.update path content) (before ++ t :: after)
        (before ++ t.rewrite stamp.now content :: after)
  | delete (path : String) (before after : List Item) (t : Item)
      (free : t.containsProtected = false) :
      Adjusted stamp place (.delete path) (before ++ t :: after) (before ++ after)

-- All that a change does to a well-formed tree.
theorem exists_adjusted {root : Item} (hr : root.WellFormed) {stamp : Stamp} {change : Change}
    {plan : Plan} (h : change.plan? root stamp = some plan) :
    ∃ e cs cs' names, Adjusted stamp e.path change cs cs' ∧
      Item.Exchange (.mk e (some cs)) (.mk (e.touch stamp.now) (some cs')) names root plan.root := by
  cases change with
  | create what folder name =>
      obtain ⟨e, cs, -, hsubject, hex⟩ := (plan?_create_iff hr.grounded).mp h
      rw [hsubject] at hex
      exact ⟨e, cs, _, _, .create what folder name cs, hex⟩
  | update path content =>
      obtain ⟨-, hfile, e, before, after, -, hex⟩ := (plan?_update_iff hr).mp h
      exact ⟨e, _, _, _, .update path content before after plan.subject hfile, hex⟩
  | delete path =>
      obtain ⟨-, hfree, e, before, after, -, hex⟩ := (plan?_delete_iff hr).mp h
      exact ⟨e, _, _, _, .delete path before after plan.subject hfree, hex⟩

end Change

namespace Item

theorem id_make (stamp : Stamp) (what : NewItem) (name path : String) :
    (what.make stamp name path).id = stamp.id := by
  cases what <;> rfl

theorem ids_make (stamp : Stamp) (what : NewItem) (name path : String) :
    (what.make stamp name path).ids = [stamp.id] := by
  cases what <;> rw [ids_eq] <;> rfl

theorem children_make (stamp : Stamp) (what : NewItem) (name path : String) :
    (what.make stamp name path).children = [] := by
  cases what <;> rfl

theorem entries_rewrite (now : Moment) (content : String) (x : Item) :
    (x.rewrite now content).entries =
      (x.rewrite now content).entry :: x.children.flatMap entries :=
  entries_eq _

theorem kept_rewrite (now : Moment) (content : String) (x : Item) :
    x.entry.Kept (x.rewrite now content).entry := rfl

theorem ids_rewrite (now : Moment) (content : String) (x : Item) :
    (x.rewrite now content).ids = x.ids := by
  rw [ids_eq, ids_eq]
  rfl

theorem Exchange.exists_ids {p p' x x' : Item} {names : List String}
    (h : Exchange p p' names x x') :
    ∃ before after, x.ids = before ++ p.ids ++ after ∧ x'.ids = before ++ p'.ids ++ after := by
  obtain ⟨before, after, hx, hx'⟩ := h.entries
  refine ⟨before.map (·.id), after.map (·.id), ?_, ?_⟩
  · rw [ids, hx, List.map_append, List.map_append, ids]
  · rw [ids, hx', List.map_append, List.map_append, ids]

end Item

namespace Change

variable {root : Item} {stamp : Stamp} {change : Change} {plan : Plan}

theorem Adjusted.ids_subperm {place : String} {cs cs' : List Item}
    (h : Adjusted stamp place change cs cs') :
    (cs'.flatMap Item.ids).Subperm (change.newIds stamp ++ cs.flatMap Item.ids) := by
  cases h with
  | create what folder name cs =>
      rw [List.flatMap_append, List.flatMap_singleton, Item.ids_make]
      exact List.perm_append_comm.subperm
  | update path content before after t file =>
      rw [List.flatMap_append, List.flatMap_cons, Item.ids_rewrite, ← List.flatMap_cons,
        ← List.flatMap_append]
      exact .refl _
  | delete path before after t free =>
      rw [List.flatMap_append, List.flatMap_append, List.flatMap_cons]
      exact ((List.sublist_append_right _ _).append_left _).subperm

-- A change gives away one number at most, and gives none back to another item.
theorem ids_subperm (hr : root.WellFormed) (h : change.plan? root stamp = some plan) :
    plan.root.ids.Subperm (change.newIds stamp ++ root.ids) := by
  obtain ⟨e, cs, cs', names, hadj, hex⟩ := exists_adjusted hr h
  obtain ⟨front, back, hids, hids'⟩ := hex.exists_ids
  rw [hids, hids', Item.ids_mk, Item.ids_mk]
  have hcs := (List.subperm_append_right back).mpr
    ((List.subperm_append_left front).mpr ((List.subperm_cons e.id).mpr hadj.ids_subperm))
  -- What is left is where the new number stands among the others.
  apply hcs.trans
  apply List.Perm.subperm
  apply List.perm_iff_count.mpr
  intro i
  simp only [List.count_append, List.count_cons]
  omega

theorem mem_of_run? {edit : Edit} {cs cs' : List Item} {c : Item} (h : edit.run? cs = some cs')
    (hc : c ∈ cs') : c ∈ cs ∨ edit = .insert c ∨ edit = .replace c := by
  cases edit with
  | insert item =>
      obtain rfl : cs ++ [item] = cs' := Option.some.inj h
      rcases List.mem_append.mp hc with hc | hc
      · exact .inl hc
      · obtain rfl := List.mem_singleton.mp hc
        exact .inr (.inl rfl)
  | replace item =>
      obtain ⟨before, x, x', after, rfl, -, -, hx, rfl⟩ := updateFirst?_eq_some_iff.mp h
      obtain rfl : item = x' := Option.some.inj hx
      by_cases he : c = item
      · exact .inr (.inr (by rw [he]))
      · left
        simp only [List.mem_append, List.mem_cons, he, false_or] at hc ⊢
        exact hc.imp_right .inr
  | remove id =>
      obtain rfl : cs.filter (·.id ≠ id) = cs' := Option.some.inj h
      exact .inl (List.mem_filter.mp hc).1

theorem placed_make (stamp : Stamp) (what : NewItem) (name path : String) :
    (what.make stamp name path).Placed := by
  cases what with
  | folder => exact Item.placed_folder_iff.mpr ⟨rfl, by simp⟩
  | text content => exact Item.placed_file_iff.mpr rfl
  | binary payload => exact Item.placed_file_iff.mpr rfl

theorem path_make (stamp : Stamp) (what : NewItem) (name path : String) :
    (what.make stamp name path).path = path ∧ (what.make stamp name path).name = name := by
  cases what <;> exact ⟨rfl, rfl⟩

theorem placed_rewrite {now : Moment} {content : String} {t : Item} (ht : t.Placed)
    (hf : t.isFolder = false) : (t.rewrite now content).Placed := by
  obtain ⟨e, _ | cs⟩ := t
  · have hk : e.kind = .file := Item.placed_file_iff.mp ht
    exact Item.placed_file_iff.mpr hk
  · exact absurd (hf.symm.trans ht.kind) (by simp [Item.children?])

-- A rebuilt tree stays in place when what is put into the folder fits there.
theorem grounded_rebuild? (hr : root.Grounded) {now : Moment} {edit : Edit} {names : List String}
    {root' : Item} (h : root.rebuild? now edit names = some root')
    (hfit : ∀ e cs c, root.descend names = some (.mk e (some cs)) →
      edit = .insert c ∨ edit = .replace c → c.Placed ∧ c.path = Path.join e.path c.name) :
    root'.Grounded := by
  obtain ⟨e, cs, cs', hrun, hex⟩ := Item.rebuild?_eq_some_iff.mp h
  obtain ⟨hkind, hcs⟩ := Item.placed_folder_iff.mp (hex.placed_inner hr.placed)
  have hp : (Item.mk (e.touch now) (some cs')).Placed := by
    refine Item.placed_folder_iff.mpr ⟨hkind, fun c hc => ?_⟩
    rcases mem_of_run? hrun hc with hc | hc
    · exact hcs c hc
    · exact (hfit e cs c hex.descend hc).symm
  refine ⟨?_, ?_, hex.placed hr.placed hp rfl rfl⟩
  · have hk := hex.entry_eq (·.kind) rfl
    simpa only [Item.isFolder, hk] using hr.folder
  · have hpath := hex.entry_eq (·.path) rfl
    simpa only [Item.path, hpath] using hr.top

theorem grounded_plan? (hr : root.Grounded) (h : change.plan? root stamp = some plan) :
    plan.root.Grounded := by
  cases change with
  | create what folder name =>
      obtain ⟨parent, hfind, -, hsubject, hafter⟩ := plan?_create.mp h
      refine grounded_rebuild? hr hafter fun e cs c hfolder hc => ?_
      have hparent : root.find? folder = some (.mk e (some cs)) := by
        rwa [Item.find?, ← hr.segments_path hfind]
      obtain rfl : parent = .mk e (some cs) := Option.some.inj (hfind.symm.trans hparent)
      obtain rfl : plan.subject = c := by simpa using hc
      obtain ⟨hpath, hname⟩ := path_make stamp what name (Path.join e.path name)
      have hmade : plan.subject = what.make stamp name (Path.join e.path name) := hsubject
      rw [hmade, hname]
      exact ⟨placed_make stamp what name _, hpath⟩
  | update path content =>
      obtain ⟨htarget, hfile, hafter⟩ := plan?_update.mp h
      refine grounded_rebuild? hr hafter fun e cs c hfolder hc => ?_
      obtain ⟨e', before, after, hfolder', -⟩ := hr.exists_folder htarget
      obtain ⟨rfl, hcs⟩ := Item.mk.inj (Option.some.inj (hfolder.symm.trans hfolder'))
      obtain rfl := Option.some.inj hcs
      obtain rfl : plan.subject.rewrite stamp.now content = c := by simpa using hc
      have hplaced := hr.placed.of_mem_walk (Item.mem_walk_of_descend hfolder)
      obtain ⟨hpath, ht⟩ := (Item.placed_folder_iff.mp hplaced).2 plan.subject (by simp)
      exact ⟨placed_rewrite ht hfile, hpath⟩
  | delete path =>
      obtain ⟨-, -, hafter⟩ := plan?_delete.mp h
      exact grounded_rebuild? hr hafter fun e cs c _ hc => by simp at hc

theorem wellFormed_plan? (hr : root.WellFormed) (h : change.plan? root stamp = some plan)
    (hid : change.creates = true → stamp.id ∉ root.ids) : plan.root.WellFormed := by
  refine Item.wellFormed_iff.mpr ⟨grounded_plan? hr.grounded h, ?_⟩
  have hnew : (change.newIds stamp ++ root.ids).Nodup := by
    unfold newIds
    split
    · next hc => exact List.nodup_cons.mpr ⟨hid hc, hr.distinct⟩
    · exact hr.distinct
  obtain ⟨l, hperm, hsub⟩ := ids_subperm hr h
  exact hperm.nodup_iff.mp (hsub.nodup hnew)

end Change

end DesktopShell

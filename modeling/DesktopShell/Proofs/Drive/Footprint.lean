import DesktopShell.Proofs.Drive.Commit
import DesktopShell.Proofs.Drive.Stock
import DesktopShell.Proofs.Tree.Node

namespace DesktopShell

namespace Change

variable {root root' t : Item} {stamp : Stamp} {plan : Plan}

-- The nodes that a change may touch, and what becomes of them: the new or old item, and the
-- folder right above it with the time of the change and its children in their old order.
def Footprint (stamp : Stamp) (before after subject : Item) : Change → Prop
  | .create what folder name =>
      ∃ parent, before.find? folder = some parent ∧ parent.isFolder = true ∧
        subject = what.make stamp name (Path.join parent.path name) ∧
        Item.Rewrites before after [parent.node]
          [⟨parent.entry.touch stamp.now, parent.childIds ++ [subject.id]⟩, ⟨subject.entry, []⟩]
  | .update path content =>
      before.find? path = some subject ∧ subject.isFolder = false ∧
        ∃ parent ∈ before.walk, subject ∈ parent.children ∧
          Item.Rewrites before after [parent.node, subject.node]
            [⟨parent.entry.touch stamp.now, parent.childIds⟩,
              ⟨{ subject.entry with content := some content, modified := stamp.now },
                subject.childIds⟩]
  | .delete path =>
      before.find? path = some subject ∧
        ∃ parent ∈ before.walk, subject ∈ parent.children ∧
          Item.Rewrites before after (parent.node :: subject.nodes)
            [⟨parent.entry.touch stamp.now, parent.childIds.erase subject.id⟩]

theorem nodes_make (stamp : Stamp) (what : NewItem) (name path : String) :
    (what.make stamp name path).nodes = [⟨(what.make stamp name path).entry, []⟩] := by
  cases what <;> rw [Item.nodes_eq] <;> rfl

theorem rewrites_create (e : Entry) (cs : List Item) (now : Moment) {new : Item}
    (hnew : new.nodes = [⟨new.entry, []⟩]) :
    Item.Rewrites (.mk e (some cs)) (.mk (e.touch now) (some (cs ++ [new])))
      [⟨e, cs.map Item.id⟩] [⟨e.touch now, cs.map Item.id ++ [new.id]⟩, ⟨new.entry, []⟩] := by
  refine ⟨cs.flatMap Item.nodes, ?_, ?_⟩
  · rw [Item.nodes_mk]
    exact .refl _
  · rw [Item.nodes_mk, List.map_append, List.flatMap_append, List.flatMap_singleton, hnew]
    exact List.perm_append_comm.cons _

theorem rewrites_update (e : Entry) (before after : List Item) (now : Moment) (content : String)
    (ht : t.children = []) :
    Item.Rewrites (.mk e (some (before ++ t :: after)))
      (.mk (e.touch now) (some (before ++ t.rewrite now content :: after)))
      [⟨e, (before ++ t :: after).map Item.id⟩, t.node]
      [⟨e.touch now, (before ++ t :: after).map Item.id⟩,
        ⟨{ t.entry with content := some content, modified := now }, t.childIds⟩] := by
  have hnodes : t.nodes = [t.node] := by
    rw [Item.nodes_eq, ht]
    rfl
  have hnodes' : (t.rewrite now content).nodes = [⟨(t.rewrite now content).entry, t.childIds⟩] := by
    rw [Item.nodes_eq]
    show _ :: t.children.flatMap Item.nodes = _
    rw [ht]
    rfl
  have hids : (before ++ t.rewrite now content :: after).map Item.id =
      (before ++ t :: after).map Item.id := by
    rw [List.map_append, List.map_append]
    rfl
  refine ⟨before.flatMap Item.nodes ++ after.flatMap Item.nodes, ?_, ?_⟩
  · rw [Item.nodes_mk, List.flatMap_append, List.flatMap_cons, hnodes]
    exact List.perm_middle.cons _
  · rw [Item.nodes_mk, List.flatMap_append, List.flatMap_cons, hnodes', hids]
    exact List.perm_middle.cons _

theorem rewrites_delete (e : Entry) (before after : List Item) (now : Moment)
    (hfirst : ∀ y ∈ before, y.id ≠ t.id) :
    Item.Rewrites (.mk e (some (before ++ t :: after)))
      (.mk (e.touch now) (some (before ++ after)))
      (⟨e, (before ++ t :: after).map Item.id⟩ :: t.nodes)
      [⟨e.touch now, ((before ++ t :: after).map Item.id).erase t.id⟩] := by
  have hnone : t.id ∉ before.map Item.id := by
    intro hmem
    obtain ⟨y, hy, he⟩ := List.mem_map.mp hmem
    exact hfirst y hy he
  have herase : ((before ++ t :: after).map Item.id).erase t.id = (before ++ after).map Item.id := by
    rw [List.map_append, List.map_cons, List.erase_append_right _ hnone, List.erase_cons_head,
      List.map_append]
  refine ⟨before.flatMap Item.nodes ++ after.flatMap Item.nodes, ?_, ?_⟩
  · rw [Item.nodes_mk, List.flatMap_append, List.flatMap_cons]
    exact (List.perm_append_comm_assoc _ _ _).cons _
  · rw [Item.nodes_mk, List.flatMap_append, herase]
    exact .refl _

theorem children_of_file (hr : root.Placed) (ht : t ∈ root.walk) (hfile : t.isFolder = false) :
    t.children = [] := by
  have hkind := (hr.of_mem_walk ht).kind
  obtain ⟨e, _ | cs⟩ := t
  · rfl
  · exact absurd (hfile.symm.trans hkind) (by simp [Item.children?])

theorem footprint_plan? (hr : root.WellFormed) {change : Change}
    (h : change.plan? root stamp = some plan) :
    change.Footprint stamp root plan.root plan.subject := by
  cases change with
  | create what folder name =>
      obtain ⟨e, cs, hfind, hsubject, hex⟩ := (plan?_create_iff hr.grounded).mp h
      have hfolder := (hex.placed_inner hr.placed).kind
      refine ⟨_, hfind, hfolder, hsubject, hex.rewrites rfl ?_⟩
      rw [hsubject]
      exact rewrites_create e cs stamp.now (nodes_make stamp what name _)
  | update path content =>
      obtain ⟨htarget, hfile, e, before, after, -, hex⟩ := (plan?_update_iff hr).mp h
      have hfind := (Option.filter_eq_some_iff.mp htarget).1
      have hmem : plan.subject ∈ (Item.mk e (some (before ++ plan.subject :: after))).children := by
        simp [Item.children, Item.children?]
      have hchildren := children_of_file hr.placed (Item.mem_walk_of_descend hfind) hfile
      exact ⟨hfind, hfile, _, Item.mem_walk_of_descend hex.descend, hmem,
        hex.rewrites rfl (rewrites_update e before after stamp.now content hchildren)⟩
  | delete path =>
      obtain ⟨htarget, -, e, before, after, -, hex⟩ := (plan?_delete_iff hr).mp h
      have hfind := (Option.filter_eq_some_iff.mp htarget).1
      have hmem : plan.subject ∈ (Item.mk e (some (before ++ plan.subject :: after))).children := by
        simp [Item.children, Item.children?]
      have hnodup := Item.ids_nodup_of_descend hr.distinct hex.descend
      have hfirst := (Item.id_ne_of_mem_siblings hnodup).1
      exact ⟨hfind, _, Item.mem_walk_of_descend hex.descend, hmem,
        hex.rewrites rfl (rewrites_delete e before after stamp.now hfirst)⟩

end Change

namespace Drive

-- A change that is made touches the nodes of its footprint and no others, and numbers still tell
-- the items of the tree apart.
theorem footprint_commit? {d : Drive} {change : Change} {now : Moment} {result : Committed}
    (hr : d.root.WellFormed) (hid : change.creates = true → d.nextId ∉ d.root.ids)
    (h : d.commit? change now = some result) :
    change.Footprint ⟨d.nextId, now⟩ d.root result.drive.root result.subject ∧
      result.drive.root.WellFormed := by
  refine ⟨?_, wellFormed_commit? hr hid h⟩
  obtain ⟨plan, hplan, rfl⟩ := commit?_eq_some_iff.mp h
  exact Change.footprint_plan? hr hplan

-- A file whose name has a slash, in a folder that is reached by a shortcut.
theorem footprint_commit?_slash :
    (stock .epoch 1).root.WellFormed ∧ (stock .epoch 1).nextId ∉ (stock .epoch 1).root.ids ∧
      ∃ result,
        (stock .epoch 1).commit? (.create (.text "") "/My Documents" "a/b") .epoch = some result ∧
        (Change.create (.text "") "/My Documents" "a/b").Footprint ⟨(stock .epoch 1).nextId, .epoch⟩
          (stock .epoch 1).root result.drive.root result.subject := by
  have hr := wellFormed_stock .epoch 1
  have hn : (stock .epoch 1).Numbered := Layout.drive_above .epoch 1 stockLayout (by decide)
  have hmade : ((stock .epoch 1).commit? (.create (.text "") "/My Documents" "a/b")
      .epoch).isSome = true := by decide +kernel
  obtain ⟨result, hresult⟩ := Option.isSome_iff_exists.mp hmade
  exact ⟨hr, hn.nextId_notMem, result, hresult,
    (footprint_commit? hr (fun _ => hn.nextId_notMem) hresult).1⟩

end Drive

end DesktopShell

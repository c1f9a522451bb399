import DesktopShell.Proofs.Drive.Commit
import DesktopShell.Proofs.Drive.Stem
import DesktopShell.Proofs.Drive.Stock

namespace DesktopShell

-- A file has the extension that its name shows, and a folder has none.
def Entry.Labelled (e : Entry) : Prop :=
  e.extension = if e.kind = .folder then none else Drive.extensionOf? e.name

namespace Item

def Labelled (x : Item) : Prop :=
  ∀ e ∈ x.entries, e.Labelled

variable {x p p' x' : Item} {names : List String}

theorem labelled_iff : x.Labelled ↔ x.entry.Labelled ∧ ∀ c ∈ x.children, c.Labelled := by
  unfold Labelled
  rw [entries_eq, List.forall_mem_cons, List.forall_mem_flatMap]

theorem labelled_mk {e : Entry} {cs : List Item} :
    (mk e (some cs)).Labelled ↔ e.Labelled ∧ ∀ c ∈ cs, c.Labelled :=
  labelled_iff

theorem labelled_leaf {e : Entry} (h : e.Labelled) : (mk e none).Labelled :=
  labelled_iff.mpr ⟨h, List.forall_mem_nil _⟩

theorem labelled_make (stamp : Stamp) (name path : String) (what : NewItem) :
    (what.make stamp name path).Labelled := by
  cases what with
  | folder => exact labelled_mk.mpr ⟨rfl, List.forall_mem_nil _⟩
  | text content => exact labelled_leaf rfl
  | binary payload => exact labelled_leaf rfl

theorem Labelled.rewrite (h : x.Labelled) (now : Moment) (content : String) :
    (x.rewrite now content).Labelled := by
  obtain ⟨hself, hchildren⟩ := labelled_iff.mp h
  exact labelled_iff.mpr ⟨hself, hchildren⟩

theorem Labelled.of_mem_walk (h : x.Labelled) {y : Item} (hy : y ∈ x.walk) : y.Labelled := by
  induction x using childInduction with
  | step x ih =>
      rcases mem_walk.mp hy with rfl | ⟨c, hc, hy⟩
      · exact h
      · exact ih c hc ((labelled_iff.mp h).2 c hc) hy

theorem Exchange.labelled (h : Exchange p p' names x x') (hx : x.Labelled)
    (hp : p.Labelled → p'.Labelled) : x'.Labelled := by
  obtain ⟨before, after, he, he'⟩ := h.entries
  unfold Labelled at *
  rw [he, List.forall_mem_append, List.forall_mem_append] at hx
  rw [he', List.forall_mem_append, List.forall_mem_append]
  exact ⟨⟨hx.1.1, hp hx.1.2⟩, hx.2⟩

-- An edit puts nothing but a labelled item into a folder.
theorem Labelled.rebuild? (hx : x.Labelled) {now : Moment} {edit : Edit}
    (hnew : ∀ c, edit = .insert c ∨ edit = .replace c → c.Labelled)
    (h : x.rebuild? now edit names = some x') : x'.Labelled := by
  obtain ⟨e, cs, cs', hrun, hex⟩ := rebuild?_eq_some_iff.mp h
  refine hex.labelled hx fun hfolder => ?_
  obtain ⟨hself, hcs⟩ := labelled_mk.mp hfolder
  refine labelled_mk.mpr ⟨hself, fun c hc => ?_⟩
  rcases Change.mem_of_run? hrun hc with hc | hc
  · exact hcs c hc
  · exact hnew c hc

-- Of a program that is labelled the end can be cut off.
theorem exists_stem (h : x.entry.Labelled) (hexe : x.isExecutable = true) :
    ∃ stem rest ext, x.entry.extension = some ext ∧ x.name = stem ++ rest ∧
      rest.utf8ByteSize = ext.utf8ByteSize + 1 ∧ x.stem? = some stem := by
  obtain ⟨ext, hext, hsome⟩ :
      ∃ ext, (ext = "exe" ∨ ext = "lnk") ∧ x.entry.extension = some ext := by
    rcases isExecutable_iff.mp hexe with hsome | hsome
    · exact ⟨_, .inl rfl, hsome⟩
    · exact ⟨_, .inr rfl, hsome⟩
  have hname : Drive.extensionOf? x.name = some ext := by
    unfold Entry.Labelled at h
    split at h
    · rw [h] at hsome
      cases hsome
    · rw [← h]
      exact hsome
  obtain ⟨stem, rest, hcut, hsize⟩ := Drive.exists_cut_of_executable hname hext
  refine ⟨stem, rest, ext, hsome, hcut, hsize, ?_⟩
  rw [stem?, hsome]
  exact Drive.stem?_some_iff.mpr (.inr ⟨rest, hcut, hsize⟩)

end Item

theorem Change.labelled_plan? {root : Item} {stamp : Stamp} {change : Change} {plan : Plan}
    (hr : root.Labelled) (h : change.plan? root stamp = some plan) : plan.root.Labelled := by
  cases change with
  | create what folder name =>
      obtain ⟨parent, -, -, hsubject, hafter⟩ := plan?_create.mp h
      refine hr.rebuild? (fun c hc => ?_) hafter
      obtain rfl : plan.subject = c := by simpa using hc
      rw [hsubject]
      exact Item.labelled_make stamp name _ what
  | update path content =>
      obtain ⟨htarget, -, hafter⟩ := plan?_update.mp h
      refine hr.rebuild? (fun c hc => ?_) hafter
      obtain rfl : plan.subject.rewrite stamp.now content = c := by simpa using hc
      have hfind := (Option.filter_eq_some_iff.mp htarget).1
      exact (hr.of_mem_walk (Item.mem_walk_of_descend hfind)).rewrite stamp.now content
  | delete path =>
      obtain ⟨-, -, hafter⟩ := plan?_delete.mp h
      exact hr.rebuild? (fun c hc => by simp at hc) hafter

theorem Drive.Step.labelled {d d' : Drive} (h : d.Step d') (hr : d.root.Labelled) :
    d'.root.Labelled := by
  rcases h with rfl | ⟨change, now, result, hresult, rfl⟩
  · exact hr
  · obtain ⟨plan, hplan, rfl⟩ := Drive.commit?_eq_some_iff.mp hresult
    exact Change.labelled_plan? hr hplan

namespace Layout

theorem guardedBy_labelled (guard : Guard) {x : Item} (h : x.Labelled) :
    (guardedBy guard x).Labelled := by
  obtain ⟨hself, hchildren⟩ := Item.labelled_iff.mp h
  obtain ⟨e, cs⟩ := x
  cases guard <;> exact Item.labelled_iff.mpr ⟨hself, hchildren⟩

mutual

theorem labelled_build (now : Moment) (path : String) (next : ItemId) :
    ∀ l : Layout, (build now path next l).1.Labelled
  | .folder name guard children =>
      guardedBy_labelled guard
        (Item.labelled_mk.mpr ⟨rfl, labelled_buildAll now (Path.join path name) (next + 1) children⟩)
  | .text _ guard _ => guardedBy_labelled guard (Item.labelled_leaf rfl)
  | .binary _ guard _ => guardedBy_labelled guard (Item.labelled_leaf rfl)

theorem labelled_buildAll (now : Moment) (path : String) (next : ItemId) :
    ∀ ls : List Layout, ∀ x ∈ (buildAll now path next ls).1, x.Labelled
  | [] => List.forall_mem_nil _
  | l :: ls => by
      rw [buildAll]
      exact List.forall_mem_cons.mpr ⟨labelled_build now path next l,
        labelled_buildAll now path (build now path next l).2 ls⟩

end

theorem labelled_drive (now : Moment) (next : ItemId) (ls : List Layout) :
    (drive now next ls).root.Labelled := by
  rw [drive_root]
  exact Item.labelled_mk.mpr ⟨rfl, labelled_buildAll now "/" (next + 1) ls⟩

end Layout

end DesktopShell

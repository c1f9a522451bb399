import DesktopShell.Proofs.Drive.Alike
import DesktopShell.Proofs.Drive.Stock

namespace DesktopShell

namespace Layout

theorem recast_guardedBy (σ : Equiv.Perm ItemId) (guard : Guard) (x : Item) :
    (guardedBy guard x).recast σ = guardedBy guard (x.recast σ) := by
  obtain ⟨e, _ | cs⟩ := x <;> cases guard <;> simp [guardedBy, Item.guarded, Entry.recast]

theorem alike_guardedBy (guard : Guard) {x x' : Item} (h : x.Alike 1 x') :
    (guardedBy guard x).Alike 1 (guardedBy guard x') := by
  have h : x.recast 1 = x'.recast 1 := h
  rw [Item.Alike, recast_guardedBy, recast_guardedBy, h]

theorem alike_folder {e e' : Entry} {cs cs' : List Item} (he : e.recast 1 = e'.recast 1)
    (hcs : cs.map (Item.recast 1) = cs'.map (Item.recast 1)) :
    (Item.mk e (some cs)).Alike 1 (.mk e' (some cs')) := by
  rw [Item.Alike, Item.recast_folder, Item.recast_folder, he, hcs]

variable (now now' : Moment)

mutual

-- What is built at another time is the same but for its times.
theorem alike_build (path : String) (next : ItemId) :
    ∀ l : Layout, (build now path next l).1.Alike 1 (build now' path next l).1
  | .folder name guard children => by
      rw [build_folder, build_folder]
      exact alike_guardedBy guard
        (alike_folder rfl (alike_buildAll (Path.join path name) (next + 1) children))
  | .text .. | .binary .. => alike_guardedBy _ rfl

theorem alike_buildAll (path : String) (next : ItemId) :
    ∀ ls : List Layout, (buildAll now path next ls).1.map (Item.recast 1) =
      (buildAll now' path next ls).1.map (Item.recast 1)
  | [] => rfl
  | l :: ls => by
      have hfirst : (build now path next l).1.recast 1 = (build now' path next l).1.recast 1 :=
        alike_build path next l
      have hnext : (build now path next l).2 = (build now' path next l).2 := by
        rw [(built_build now path next l).after, (built_build now' path next l).after]
      rw [buildAll, buildAll, List.map_cons, List.map_cons, hfirst, hnext, alike_buildAll]

end

theorem alike_drive (next : ItemId) (ls : List Layout) :
    (drive now next ls).Alike 1 (drive now' next ls) where
  root := by
    rw [drive_root, drive_root]
    exact alike_folder rfl (alike_buildAll now now' "/" (next + 1) ls)
  desktop := rfl

end Layout

theorem Drive.alike_stock (now now' : Moment) (next : ItemId) :
    (stock now next).Alike 1 (stock now' next) :=
  Layout.alike_drive now now' next stockLayout

end DesktopShell

import DesktopShell.Drive.Edit
import DesktopShell.Proofs.Tree.Walk
import Mathlib.Data.List.Basic
import Mathlib.Logic.Equiv.Defs

namespace DesktopShell

-- An entry under another number and without its times.
def Entry.recast (σ : Equiv.Perm ItemId) (e : Entry) : Entry :=
  { e with id := σ e.id, created := .epoch, modified := .epoch }

namespace Item

mutual

-- A tree under other numbers and without its times.
def recast (σ : Equiv.Perm ItemId) : Item → Item
  | mk e none => mk (e.recast σ) none
  | mk e (some cs) => mk (e.recast σ) (some (recastAll σ cs))

def recastAll (σ : Equiv.Perm ItemId) : List Item → List Item
  | [] => []
  | x :: xs => recast σ x :: recastAll σ xs

end

section Recast

variable (σ : Equiv.Perm ItemId) (x : Item)

theorem recastAll_eq (cs : List Item) : recastAll σ cs = cs.map (recast σ) := by
  induction cs with
  | nil => rfl
  | cons c cs ih => rw [recastAll, ih, List.map_cons]

@[simp] theorem recast_file (e : Entry) : (mk e none).recast σ = mk (e.recast σ) none := by
  rw [recast]

@[simp] theorem recast_folder (e : Entry) (cs : List Item) :
    (mk e (some cs)).recast σ = mk (e.recast σ) (some (cs.map (recast σ))) := by
  rw [recast, recastAll_eq]

@[simp] theorem entry_recast : (x.recast σ).entry = x.entry.recast σ := by
  obtain ⟨e, _ | cs⟩ := x <;> simp [entry]

@[simp] theorem children?_recast : (x.recast σ).children? = x.children?.map (List.map (recast σ)) := by
  obtain ⟨e, _ | cs⟩ := x <;> simp [children?]

@[simp] theorem children_recast : (x.recast σ).children = x.children.map (recast σ) := by
  obtain ⟨e, _ | cs⟩ := x <;> simp [children, children?]

-- The look of an item does not depend on its number and its times.
@[simp] theorem id_recast : (x.recast σ).id = σ x.id := by
  rw [id, entry_recast]
  rfl

@[simp] theorem name_recast : (x.recast σ).name = x.name := by
  rw [name, entry_recast]
  rfl

@[simp] theorem path_recast : (x.recast σ).path = x.path := by
  rw [path, entry_recast]
  rfl

@[simp] theorem isPlainText_recast : (x.recast σ).isPlainText = x.isPlainText := by
  rw [isPlainText, entry_recast]
  rfl

@[simp] theorem isImage_recast : (x.recast σ).isImage = x.isImage := by
  rw [isImage, entry_recast]
  rfl

@[simp] theorem isExecutable_recast : (x.recast σ).isExecutable = x.isExecutable := by
  rw [isExecutable, entry_recast]
  rfl

@[simp] theorem stem?_recast : (x.recast σ).stem? = x.stem? := by
  rw [stem?, name_recast, entry_recast]
  rfl

@[simp] theorem isFolder_recast : (x.recast σ).isFolder = x.isFolder := by
  rw [isFolder, entry_recast]
  rfl

@[simp] theorem size_recast : (x.recast σ).size = x.size := by
  rw [size, entry_recast]
  rfl

@[simp] theorem containsProtected_recast :
    (x.recast σ).containsProtected = x.containsProtected := by
  induction x using childInduction with
  | step x ih =>
      have hany : (x.children.map (recast σ)).any containsProtected =
          x.children.any containsProtected := by
        rw [Bool.eq_iff_iff, List.any_map, List.any_eq_true, List.any_eq_true]
        refine exists_congr fun c => and_congr_right fun hc => ?_
        rw [Function.comp_apply, ih c hc]
      rw [containsProtected_eq, containsProtected_eq x, entry_recast, children_recast, hany]
      rfl

theorem recast_recast (τ : Equiv.Perm ItemId) :
    (x.recast σ).recast τ = x.recast (σ.trans τ) := by
  induction x using childInduction with
  | step x ih =>
      obtain ⟨e, _ | cs⟩ := x
      · simp [Entry.recast]
      · have hcs : cs.map (recast τ ∘ recast σ) = cs.map (recast (σ.trans τ)) :=
          List.map_congr_left ih
        rw [recast_folder, recast_folder, recast_folder, List.map_map, hcs]
        simp [Entry.recast]

theorem walk_recast : (x.recast σ).walk = x.walk.map (recast σ) := by
  induction x using childInduction with
  | step x ih =>
      have hbelow : (x.children.map (recast σ)).flatMap walk =
          (x.children.flatMap walk).map (recast σ) := by
        rw [List.flatMap_map, List.map_flatMap]
        exact List.flatMap_congr ih
      rw [walk_eq, walk_eq x, children_recast, hbelow, List.map_cons]

-- Where a search leads does not depend on numbers and times, if its test does not.
theorem findFirst?_recast {test : Item → Bool} (htest : ∀ y, test (recast σ y) = test y) :
    (x.recast σ).findFirst? test = (x.findFirst? test).map (recast σ) := by
  have hcomp : test ∘ recast σ = test := funext htest
  rw [findFirst?, walk_recast, List.find?_map, hcomp, findFirst?]

theorem child?_recast (name : String) : (x.recast σ).child? name = (x.child? name).map (recast σ) := by
  have hcomp : (fun y : Item => decide (y.name = name)) ∘ recast σ =
      fun y : Item => decide (y.name = name) := by
    funext y
    rw [Function.comp_apply, name_recast]
  rw [child?, children_recast, List.find?_map, hcomp, child?]

theorem descend_recast (names : List String) :
    (x.recast σ).descend names = (x.descend names).map (recast σ) := by
  induction names generalizing x with
  | nil => rfl
  | cons name names ih =>
      rw [descend, descend, child?_recast]
      cases x.child? name with
      | none => rfl
      | some c => exact ih c

theorem find?_recast (p : String) : (x.recast σ).find? p = (x.find? p).map (recast σ) :=
  descend_recast σ x (Path.route p)

end Recast

end Item

theorem updateFirst?_map {α β : Type} {f : α → β} (test : α → Bool) (test' : β → Bool)
    {change : α → Option α} {change' : β → Option β} (htest : ∀ x, test' (f x) = test x)
    (hchange : ∀ x, change' (f x) = (change x).map f) (xs : List α) :
    updateFirst? test' change' (xs.map f) = (updateFirst? test change xs).map (List.map f) := by
  induction xs with
  | nil => rfl
  | cons x xs ih =>
      rw [List.map_cons, updateFirst?, updateFirst?, htest, hchange, ih]
      cases test x with
      | true => cases change x <;> rfl
      | false => cases updateFirst? test change xs <;> rfl

def Edit.recast (σ : Equiv.Perm ItemId) : Edit → Edit
  | .insert item => .insert (item.recast σ)
  | .replace item => .replace (item.recast σ)
  | .remove id => .remove (σ id)

theorem Edit.run?_recast (σ : Equiv.Perm ItemId) (edit : Edit) (cs : List Item) :
    (edit.recast σ).run? (cs.map (Item.recast σ)) =
      (edit.run? cs).map (List.map (Item.recast σ)) := by
  cases edit with
  | insert item => simp [Edit.recast, Edit.run?]
  | replace item =>
      apply updateFirst?_map
      · intro x
        simp
      · intro x
        rfl
  | remove id =>
      have hcomp : (fun x : Item => decide (x.id ≠ σ id)) ∘ Item.recast σ =
          fun x : Item => decide (x.id ≠ id) := by
        funext x
        simp
      simp only [Edit.recast, Edit.run?, Option.map_some, List.filter_map, hcomp]

namespace Item

variable (σ : Equiv.Perm ItemId)

theorem rebuild?_recast (now : Moment) (edit : Edit) (names : List String) (x : Item) :
    (x.recast σ).rebuild? .epoch (edit.recast σ) names =
      (x.rebuild? now edit names).map (recast σ) := by
  induction names generalizing x with
  | nil =>
      obtain ⟨e, _ | cs⟩ := x
      · simp [rebuild?]
      · rw [recast_folder, rebuild?, rebuild?, Edit.run?_recast]
        cases edit.run? cs with
        | none => rfl
        | some cs' => simp [Entry.recast]
  | cons name names ih =>
      obtain ⟨e, _ | cs⟩ := x
      · simp [rebuild?]
      · have hupdate := updateFirst?_map (fun y : Item => decide (y.name = name))
          (fun y : Item => decide (y.name = name)) (fun y => by rw [name_recast]) ih cs
        rw [recast_folder, rebuild?, rebuild?, hupdate]
        cases updateFirst? (·.name = name) (rebuild? now edit names) cs with
        | none => rfl
        | some cs' => simp

end Item

end DesktopShell

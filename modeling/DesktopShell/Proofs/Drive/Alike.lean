import DesktopShell.Proofs.Drive.Commit
import DesktopShell.Proofs.Tree.Recast
import Mathlib.Algebra.Group.End
import Mathlib.Logic.Equiv.Basic

namespace DesktopShell

-- Two results that come to the same are both there or both missing.
theorem map_eq_map_cases {α β γ : Type} {f : α → γ} {g : β → γ} {a : Option α} {b : Option β}
    (h : a.map f = b.map g) :
    (a = none ∧ b = none) ∨ ∃ x y, a = some x ∧ b = some y ∧ f x = g y := by
  cases a with
  | none => exact .inl ⟨rfl, by simpa using h.symm⟩
  | some x =>
      obtain ⟨y, hy, he⟩ := Option.map_eq_some_iff.mp h.symm
      exact .inr ⟨x, y, rfl, hy, he.symm⟩

namespace Item

-- Two trees that differ in their numbers, in the way that `σ` says, and in their times.
def Alike (σ : Equiv.Perm ItemId) (x x' : Item) : Prop :=
  x.recast σ = x'.recast 1

variable {σ : Equiv.Perm ItemId} {x x' : Item}

theorem Alike.refl (x : Item) : x.Alike 1 x := rfl

theorem Alike.trans {τ : Equiv.Perm ItemId} {x'' : Item} (h : x.Alike σ x') (h' : x'.Alike τ x'') :
    x.Alike (σ.trans τ) x'' := by
  have h : x.recast σ = x'.recast 1 := h
  rw [Alike, ← recast_recast, h, recast_recast]
  exact h'

-- What does not depend on numbers and times is the same for both.
theorem Alike.congr (h : x.Alike σ x') {β : Type} (f : Item → β)
    (hf : ∀ (σ : Equiv.Perm ItemId) (y : Item), f (y.recast σ) = f y) : f x' = f x := by
  rw [← hf σ x, h, hf 1 x']

theorem Alike.name_eq (h : x.Alike σ x') : x'.name = x.name :=
  h.congr Item.name name_recast

theorem Alike.path_eq (h : x.Alike σ x') : x'.path = x.path :=
  h.congr Item.path path_recast

theorem Alike.find?_cases (h : x.Alike σ x') (p : String) :
    (x.find? p = none ∧ x'.find? p = none) ∨
      ∃ y y', x.find? p = some y ∧ x'.find? p = some y' ∧ y.Alike σ y' := by
  apply map_eq_map_cases
  rw [← find?_recast, h, find?_recast]

theorem Alike.findFirst?_cases (h : x.Alike σ x') {test : Item → Bool}
    (htest : ∀ (σ : Equiv.Perm ItemId) (y : Item), test (y.recast σ) = test y) :
    (x.findFirst? test = none ∧ x'.findFirst? test = none) ∨
      ∃ y y', x.findFirst? test = some y ∧ x'.findFirst? test = some y' ∧ y.Alike σ y' := by
  apply map_eq_map_cases
  rw [← findFirst?_recast σ x (htest σ), h, findFirst?_recast 1 x' (htest 1)]

theorem Alike.child?_isSome (h : x.Alike σ x') (name : String) :
    (x'.child? name).isSome = (x.child? name).isSome :=
  h.congr (fun y => (y.child? name).isSome) fun σ y => by
    rw [child?_recast, Option.isSome_map]

-- Trees stay alike when `σ` is changed at a number that neither of them has.
theorem recast_congr {τ : Equiv.Perm ItemId} (h : ∀ i ∈ x.ids, τ i = σ i) :
    x.recast τ = x.recast σ := by
  induction x using childInduction with
  | step x ih =>
      have hself : τ x.entry.id = σ x.entry.id := h x.id (id_mem_ids (self_mem_walk x))
      have hentry : x.entry.recast τ = x.entry.recast σ := by
        rw [Entry.recast, Entry.recast, hself]
      obtain ⟨e, _ | cs⟩ := x
      · rw [recast_file, recast_file]
        exact congrArg (mk · none) hentry
      · have hbelow : cs.map (recast τ) = cs.map (recast σ) := by
          apply List.map_congr_left
          intro c hc
          refine ih c hc fun i hi => h i ?_
          rw [ids_mk]
          exact List.mem_cons_of_mem _ (List.mem_flatMap.mpr ⟨c, hc, hi⟩)
        rw [recast_folder, recast_folder, hbelow]
        exact congrArg (mk · _) hentry

theorem ids_recast (σ : Equiv.Perm ItemId) (x : Item) : (x.recast σ).ids = x.ids.map σ := by
  rw [ids_eq_map_walk, ids_eq_map_walk, walk_recast, List.map_map, List.map_map]
  exact List.map_congr_left fun y _ => id_recast σ y

theorem Alike.ids_eq (h : x.Alike σ x') : x'.ids = x.ids.map σ := by
  have hids := congrArg ids h
  rw [ids_recast, ids_recast] at hids
  simpa using hids.symm

-- Two numbers that are free can be made to correspond.
theorem Alike.exists_extension (h : x.Alike σ x') {i i' : ItemId} (hi : i ∉ x.ids)
    (hi' : i' ∉ x'.ids) : ∃ τ : Equiv.Perm ItemId, x.Alike τ x' ∧ τ i = i' := by
  refine ⟨σ.trans (Equiv.swap (σ i) i'), ?_, by simp⟩
  have hsame : ∀ j ∈ x.ids, (σ.trans (Equiv.swap (σ i) i')) j = σ j := by
    intro j hj
    rw [Equiv.trans_apply]
    apply Equiv.swap_apply_of_ne_of_ne
    · intro he
      exact hi (σ.injective he ▸ hj)
    · intro he
      rw [h.ids_eq] at hi'
      exact hi' (he ▸ List.mem_map_of_mem hj)
  rw [Alike, recast_congr hsame]
  exact h

end Item

def Plan.recast (σ : Equiv.Perm ItemId) (plan : Plan) : Plan :=
  ⟨plan.root.recast σ, plan.subject.recast σ⟩

namespace Change

variable (σ : Equiv.Perm ItemId) (root : Item) (i : ItemId) (now : Moment)

theorem make_recast (what : NewItem) (name path : String) :
    (what.make ⟨i, now⟩ name path).recast σ = what.make ⟨σ i, .epoch⟩ name path := by
  cases what with
  | folder => simp [NewItem.make, Item.folder, Entry.recast]
  | text content => simp [NewItem.make, Item.textFile, Entry.recast]
  | binary payload => simp [NewItem.make, Item.binaryFile, Entry.recast]

theorem target?_recast (p : String) :
    target? (root.recast σ) p = (target? root p).map (Item.recast σ) := by
  have hcomp : (fun x : Item => !Path.isRoot x.path) ∘ Item.recast σ =
      fun x : Item => !Path.isRoot x.path := by
    funext x
    rw [Function.comp_apply, Item.path_recast]
  rw [target?, Item.find?_recast, Option.filter_map, hcomp, target?]

theorem planned_recast {found? : Option Item} {refuses : Item → Bool}
    {after? after?' : Item → Option Item} {subject subject' : Item → Item}
    (hrefuses : ∀ x, refuses (x.recast σ) = refuses x)
    (hafter : ∀ x, after?' (x.recast σ) = (after? x).map (Item.recast σ))
    (hsubject : ∀ x, subject' (x.recast σ) = (subject x).recast σ) :
    planned (found?.map (Item.recast σ)) refuses after?' subject' =
      (planned found? refuses after? subject).map (Plan.recast σ) := by
  cases found? with
  | none => rfl
  | some x =>
      simp only [planned, Option.map_some, Option.bind_some, hrefuses, hafter, hsubject]
      cases refuses x with
      | true => rfl
      | false => cases after? x <;> rfl

-- A change is planned the same way on a tree with other numbers and at another time.
theorem plan?_recast (change : Change) :
    change.plan? (root.recast σ) ⟨σ i, .epoch⟩ =
      (change.plan? root ⟨i, now⟩).map (Plan.recast σ) := by
  have hrebuild (edit : Edit) (names : List String) := root.rebuild?_recast σ now edit names
  cases change with
  | create what folder name =>
      have hmake (x : Item) :
          what.make ⟨σ i, .epoch⟩ name (Path.join (x.recast σ).path name) =
            (what.make ⟨i, now⟩ name (Path.join x.path name)).recast σ := by
        rw [make_recast, Item.path_recast]
      rw [planned_create, planned_create, Item.find?_recast]
      refine planned_recast σ (fun x => by rw [Item.isFolder_recast]) (fun x => ?_) hmake
      rw [hmake, Item.path_recast]
      exact hrebuild (.insert _) _
  | update path content =>
      rw [planned_update, planned_update, target?_recast]
      refine planned_recast σ (Item.isFolder_recast σ) (fun x => ?_) fun x => rfl
      have hrewrite : (x.recast σ).rewrite .epoch content = (x.rewrite now content).recast σ := by
        obtain ⟨e, _ | cs⟩ := x <;>
          simp [Item.rewrite, Item.entry, Item.children?, Entry.recast]
      rw [hrewrite, Item.path_recast]
      exact hrebuild (.replace _) _
  | delete path =>
      rw [planned_delete, planned_delete, target?_recast]
      refine planned_recast σ (Item.containsProtected_recast σ) (fun x => ?_) fun x => rfl
      rw [Item.id_recast, Item.path_recast]
      exact hrebuild (.remove x.id) _

theorem plan?_of_not_creates {change : Change} (hc : change.creates = false) (i' : ItemId) :
    change.plan? root ⟨i', now⟩ = change.plan? root ⟨i, now⟩ := by
  cases change with
  | create => cases hc
  | update | delete => rfl

variable {σ root i now} {root' : Item} {i' : ItemId} {now' : Moment} {change : Change}

-- What is planned on one of two trees that are alike is planned on the other, as long as the numbers
-- for a new item correspond.
theorem plan?_cases (h : root.Alike σ root') (hi : change.creates = true → σ i = i') :
    (change.plan? root ⟨i, now⟩ = none ∧ change.plan? root' ⟨i', now'⟩ = none) ∨
      ∃ plan plan', change.plan? root ⟨i, now⟩ = some plan ∧
        change.plan? root' ⟨i', now'⟩ = some plan' ∧ plan.root.Alike σ plan'.root ∧
        plan.subject.Alike σ plan'.subject := by
  have hnumber : change.plan? root' ⟨i', now'⟩ = change.plan? root' ⟨σ i, now'⟩ := by
    cases hc : change.creates with
    | true => rw [hi hc]
    | false => exact plan?_of_not_creates root' (σ i) now' hc i'
  have hplan : (change.plan? root ⟨i, now⟩).map (Plan.recast σ) =
      (change.plan? root' ⟨i', now'⟩).map (Plan.recast 1) := by
    have hroot : root.recast σ = root'.recast 1 := h
    rw [hnumber, ← plan?_recast, ← plan?_recast, hroot]
    rfl
  rcases map_eq_map_cases hplan with hnone | ⟨plan, plan', hsome, hsome', he⟩
  · exact .inl hnone
  · exact .inr ⟨plan, plan', hsome, hsome', congrArg Plan.root he, congrArg Plan.subject he⟩

end Change

namespace Drive

-- Two drives with trees that are alike, and the same folder for the desktop.
structure Alike (σ : Equiv.Perm ItemId) (d d' : Drive) : Prop where
  root : d.root.Alike σ d'.root
  desktop : d'.desktop = d.desktop

variable {σ : Equiv.Perm ItemId} {d d' : Drive}

theorem Alike.refl (d : Drive) : d.Alike 1 d := ⟨.refl d.root, rfl⟩

theorem Alike.icon?_eq (h : d.Alike σ d') (change : Change) {x x' : Item} (hx : x.Alike σ x') :
    d'.icon? change x' = d.icon? change x := by
  unfold icon?
  rw [h.desktop, hx.path_eq]

-- A change that is made on one of two such drives is made on the other, as long as the numbers for a
-- new item correspond.
theorem Alike.commit?_cases (h : d.Alike σ d') (hnext : σ d.nextId = d'.nextId) (change : Change)
    (now now' : Moment) :
    (d.commit? change now = none ∧ d'.commit? change now' = none) ∨
      ∃ result result', d.commit? change now = some result ∧ d'.commit? change now' = some result' ∧
        result.subject.Alike σ result'.subject ∧ result'.icon = result.icon ∧
        result.drive.Alike σ result'.drive ∧
        (d'.nextId = d.nextId → result'.drive.nextId = result.drive.nextId) := by
  rw [commit?_eq, commit?_eq]
  rcases Change.plan?_cases h.root (fun _ => hnext) with
    ⟨hnone, hnone'⟩ | ⟨plan, plan', hsome, hsome', hroot, hsubject⟩
  · exact .inl ⟨by rw [hnone]; rfl, by rw [hnone']; rfl⟩
  · rw [hsome, hsome']
    refine .inr ⟨_, _, rfl, rfl, hsubject,
      h.icon?_eq change hsubject, ⟨hroot, h.desktop⟩, fun hsame => ?_⟩
    simp only [hsame]

end Drive

end DesktopShell

import DesktopShell.Proofs.Path.Segments
import DesktopShell.Proofs.Tree.Walk
import DesktopShell.Snapshot.Check
import Mathlib.Data.List.Nodup

namespace DesktopShell.Item

-- Folders and no other items have a list of children, and every child lies where its path
-- says, here and everywhere below.
inductive Placed : Item → Prop
  | mk {x : Item} (kind : x.isFolder = x.children?.isSome)
      (paths : ∀ c ∈ x.children, c.path = Path.join x.path c.name)
      (below : ∀ c ∈ x.children, Placed c) : Placed x

-- What the tree of a drive is like: its top is a folder at no place in particular, everything
-- in it is in its place, and no number is given twice.
structure WellFormed (root : Item) : Prop where
  folder : root.isFolder = true
  top : Path.isRoot root.path = true
  placed : root.Placed
  distinct : root.ids.Nodup

section Placed

variable {x y c : Item}

theorem Placed.kind (h : x.Placed) : x.isFolder = x.children?.isSome := by
  cases h with
  | mk kind _ _ => exact kind

theorem Placed.path_child (h : x.Placed) (hc : c ∈ x.children) :
    c.path = Path.join x.path c.name := by
  cases h with
  | mk _ paths _ => exact paths c hc

theorem Placed.child (h : x.Placed) (hc : c ∈ x.children) : c.Placed := by
  cases h with
  | mk _ _ below => exact below c hc

theorem Placed.of_mem_walk (h : x.Placed) (hy : y ∈ x.walk) : y.Placed := by
  induction x using childInduction with
  | step x ih =>
      rcases mem_walk.mp hy with rfl | ⟨c, hc, hy⟩
      · exact h
      · exact ih c hc (h.child hc) hy

theorem placed_folder_iff {e : Entry} {cs : List Item} :
    (mk e (some cs)).Placed ↔
      e.kind = .folder ∧ ∀ c ∈ cs, c.path = Path.join e.path c.name ∧ c.Placed := by
  constructor
  · intro h
    have hk := h.kind
    simp only [isFolder, entry, children?, Option.isSome_some] at hk
    exact ⟨of_decide_eq_true hk, fun c hc => ⟨h.path_child hc, h.child hc⟩⟩
  · rintro ⟨hk, h⟩
    exact .mk (by simp [isFolder, entry, children?, hk]) (fun c hc => (h c hc).1)
      fun c hc => (h c hc).2

theorem placed_file_iff {e : Entry} : (mk e none).Placed ↔ e.kind = .file := by
  constructor
  · intro h
    have hk := h.kind
    cases he : e.kind with
    | file => rfl
    | folder => simp [isFolder, entry, children?, he] at hk
  · intro hk
    exact .mk (by simp [isFolder, entry, children?, hk]) (by simp [children, children?])
      (by simp [children, children?])

end Placed

-- Two items of a well-formed tree with one number are one item.
theorem WellFormed.eq_of_id {root x y : Item} (hr : root.WellFormed) (hx : x ∈ root.walk)
    (hy : y ∈ root.walk) (h : x.id = y.id) : x = y := by
  have hnodup := hr.distinct
  rw [ids_eq_map_walk] at hnodup
  exact List.inj_on_of_nodup_map hnodup hx hy h

end DesktopShell.Item

namespace DesktopShell.Snapshot

open Item

-- Where the children of the item on top are put makes no difference to the numbers.
theorem ids_pending_perm (seen : List ItemId) (x : Item) (rest : List Item) :
    (x.id :: seen ++ (x.children.reverse ++ rest).flatMap ids).Perm
      (seen ++ (x :: rest).flatMap ids) := by
  have hchildren := (List.reverse_perm x.children).flatMap_right ids
  rw [List.flatMap_append, List.flatMap_cons, ids_eq, List.cons_append, List.cons_append]
  exact (((hchildren.append_right _).append_left seen).cons x.id).trans List.perm_middle.symm

theorem search_eq_none_iff (seen : List ItemId) (pending : List Item) (hs : seen.Nodup) :
    search seen pending = none ↔
      (∀ x ∈ pending, x.Placed) ∧ (seen ++ pending.flatMap ids).Nodup := by
  -- By the recursion of the search: each step moves one number from what is pending to what has
  -- been seen, so that the numbers of both together stay the same.
  induction seen, pending using search.induct with
  | case1 seen => simp [search, hs]
  | case2 seen x rest hx =>
      rw [search, if_pos hx]
      refine iff_of_false (by simp) fun h => ?_
      have hmem : x.id ∈ (x :: rest).flatMap ids :=
        List.mem_flatMap.mpr ⟨x, List.mem_cons_self, id_mem_ids (self_mem_walk x)⟩
      exact (List.nodup_append.mp h.2).2.2 x.id hx x.id hmem rfl
  | case3 seen x rest hx hk =>
      rw [search, if_neg hx, if_pos hk]
      exact iff_of_false (by simp) fun h => hk (h.1 x (by simp)).kind
  | case4 seen x rest hx hk c hc =>
      rw [search, if_neg hx, if_neg hk, hc]
      refine iff_of_false (by simp) fun h => ?_
      have hp := (h.1 x (by simp)).path_child (List.mem_of_find?_eq_some hc)
      simpa [hp] using List.find?_some hc
  | case5 seen x rest hx hk hc ih =>
      rw [search, if_neg hx, if_neg hk, hc]
      have hpaths : ∀ c ∈ x.children, c.path = Path.join x.path c.name := by
        simpa [List.find?_eq_none] using hc
      have hpending : (∀ y ∈ x.children.reverse ++ rest, y.Placed) ↔ ∀ y ∈ x :: rest, y.Placed := by
        simp only [List.mem_append, List.mem_reverse, List.mem_cons]
        constructor
        · rintro h y (rfl | hy)
          · exact .mk (not_ne_iff.mp hk) hpaths fun c hc => h c (.inl hc)
          · exact h y (.inr hy)
        · rintro h y (hy | hy)
          · exact (h x (.inl rfl)).child hy
          · exact h y (.inr hy)
      rw [ih (List.nodup_cons.mpr ⟨hx, hs⟩), hpending, (ids_pending_perm seen x rest).nodup_iff]

theorem flaw?_eq_none_iff (root : Item) : flaw? root = none ↔ root.WellFormed := by
  have hsearch := search_eq_none_iff [] [root] List.nodup_nil
  simp only [List.mem_singleton, forall_eq, List.nil_append, List.flatMap_singleton] at hsearch
  unfold flaw?
  split
  · next h =>
      refine iff_of_false (by simp) fun hw => ?_
      simp [hw.folder, hw.top] at h
  · next h =>
      simp only [Bool.or_eq_true, Bool.not_eq_true', not_or, Bool.not_eq_false] at h
      rw [hsearch]
      exact ⟨fun hw => ⟨h.1, h.2, hw.1, hw.2⟩, fun hw => ⟨hw.placed, hw.distinct⟩⟩

end DesktopShell.Snapshot

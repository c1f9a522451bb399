import DesktopShell.Drive.Find

namespace DesktopShell.Item

theorem count_le_countAll {c : Item} {cs : List Item} (h : c ∈ cs) : c.count ≤ countAll cs := by
  induction cs with
  | nil => simp at h
  | cons d cs ih =>
      rw [countAll]
      rcases List.mem_cons.mp h with rfl | h
      · omega
      · have := ih h
        omega

theorem count_lt_of_mem_children {x c : Item} (h : c ∈ x.children) : c.count < x.count := by
  have := count_le_countAll h
  rw [count_eq x]
  omega

-- What holds of an item as soon as it holds of its children holds of every item.
@[elab_as_elim]
theorem childInduction {motive : Item → Prop}
    (step : ∀ x, (∀ c ∈ x.children, motive c) → motive x) (x : Item) : motive x :=
  step x fun c hc =>
    have := count_lt_of_mem_children hc
    childInduction step c
termination_by x.count

theorem visit_append (xs ys : List Item) : visit (xs ++ ys) = visit xs ++ visit ys := by
  induction xs using visit.induct with
  | case1 => rw [visit, List.nil_append, List.nil_append]
  | case2 x rest ih => rw [List.cons_append, visit, visit, ← List.append_assoc, ih, List.cons_append]

theorem visit_eq_flatMap (xs : List Item) : visit xs = xs.flatMap walk := by
  induction xs with
  | nil => rw [visit, List.flatMap_nil]
  | cons x xs ih => rw [← List.singleton_append, visit_append, ih]; rfl

-- The stack of pending items is gone: a walk is an item and then the walks of its children.
theorem walk_eq (x : Item) : x.walk = x :: x.children.flatMap walk := by
  rw [walk, visit, List.append_nil, visit_eq_flatMap]

theorem mem_walk {x y : Item} : y ∈ x.walk ↔ y = x ∨ ∃ c ∈ x.children, y ∈ c.walk := by
  rw [walk_eq, List.mem_cons, List.mem_flatMap]

theorem self_mem_walk (x : Item) : x ∈ x.walk :=
  mem_walk.mpr (.inl rfl)

theorem mem_walk_trans {x y z : Item} (hz : z ∈ y.walk) (hy : y ∈ x.walk) : z ∈ x.walk := by
  induction x using childInduction with
  | step x ih =>
      rcases mem_walk.mp hy with rfl | ⟨c, hc, hy⟩
      · exact hz
      · exact mem_walk.mpr (.inr ⟨c, hc, ih c hc hy⟩)

-- What the items of a tree are apart from what they contain, in the order of the walk.
def entries (x : Item) : List Entry :=
  x.walk.map entry

def ids (x : Item) : List ItemId :=
  x.entries.map (·.id)

theorem entries_eq (x : Item) : x.entries = x.entry :: x.children.flatMap entries := by
  rw [entries, walk_eq, List.map_cons, List.map_flatMap]
  rfl

theorem entries_mk (e : Entry) (cs : List Item) :
    (mk e (some cs)).entries = e :: cs.flatMap entries :=
  entries_eq _

theorem ids_eq (x : Item) : x.ids = x.id :: x.children.flatMap ids := by
  rw [ids, entries_eq, List.map_cons, List.map_flatMap]
  rfl

theorem ids_mk (e : Entry) (cs : List Item) : (mk e (some cs)).ids = e.id :: cs.flatMap ids :=
  ids_eq _

theorem ids_eq_map_walk (x : Item) : x.ids = x.walk.map id := by
  rw [ids, entries, List.map_map]
  rfl

theorem entry_mem_entries {x y : Item} (h : y ∈ x.walk) : y.entry ∈ x.entries :=
  List.mem_map_of_mem h

theorem id_mem_ids {x y : Item} (h : y ∈ x.walk) : y.id ∈ x.ids :=
  List.mem_map_of_mem (entry_mem_entries h)

theorem anyProtected_eq (xs : List Item) : anyProtected xs = xs.any containsProtected := by
  induction xs with
  | nil => rfl
  | cons x xs ih => rw [anyProtected, ih, List.any_cons]

theorem containsProtected_eq (x : Item) :
    x.containsProtected = (x.entry.isProtected || x.children.any containsProtected) := by
  obtain ⟨e, _ | cs⟩ := x
  · simp [containsProtected, entry, children, children?]
  · rw [containsProtected, anyProtected_eq]
    rfl

theorem containsProtected_iff (x : Item) :
    x.containsProtected = true ↔ ∃ e ∈ x.entries, e.isProtected = true := by
  induction x using childInduction with
  | step x ih =>
      rw [containsProtected_eq, entries_eq, Bool.or_eq_true, List.any_eq_true]
      simp only [List.mem_cons, exists_eq_or_imp, List.mem_flatMap]
      constructor
      · rintro (h | ⟨c, hc, h⟩)
        · exact .inl h
        · obtain ⟨e, he, h⟩ := (ih c hc).mp h
          exact .inr ⟨e, ⟨c, hc, he⟩, h⟩
      · rintro (h | ⟨e, ⟨c, hc, he⟩, h⟩)
        · exact .inl h
        · exact .inr ⟨c, hc, (ih c hc).mpr ⟨e, he, h⟩⟩

end DesktopShell.Item

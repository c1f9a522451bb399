import DesktopShell.Drive.Edit
import DesktopShell.Proofs.Tree.WellFormed

namespace DesktopShell

theorem updateFirst?_eq_some_iff {α : Type} {test : α → Bool} {change : α → Option α}
    {xs ys : List α} :
    updateFirst? test change xs = some ys ↔
      ∃ before x x' after, xs = before ++ x :: after ∧ (∀ y ∈ before, test y = false) ∧
        test x = true ∧ change x = some x' ∧ ys = before ++ x' :: after := by
  induction xs generalizing ys with
  | nil => simp [updateFirst?]
  | cons x xs ih =>
      rw [updateFirst?]
      split
      · next hx =>
          rw [Option.map_eq_some_iff]
          constructor
          · rintro ⟨x', hc, rfl⟩
            exact ⟨[], x, x', xs, rfl, by simp, hx, hc, rfl⟩
          · rintro ⟨_ | ⟨b, before⟩, y, y', after, he, hb, hy, hc, rfl⟩
            · obtain ⟨rfl, rfl⟩ := List.cons.inj he
              exact ⟨y', hc, rfl⟩
            · obtain ⟨rfl, rfl⟩ := List.cons.inj he
              simp [hx] at hb
      · next hx =>
          rw [Option.map_eq_some_iff]
          constructor
          · rintro ⟨ys, hu, rfl⟩
            obtain ⟨before, y, y', after, rfl, hb, hy, hc, rfl⟩ := ih.mp hu
            exact ⟨x :: before, y, y', after, rfl, by simpa [hx] using hb, hy, hc, rfl⟩
          · rintro ⟨_ | ⟨b, before⟩, y, y', after, he, hb, hy, hc, rfl⟩
            · obtain ⟨rfl, rfl⟩ := List.cons.inj he
              exact absurd hy hx
            · obtain ⟨rfl, rfl⟩ := List.cons.inj he
              refine ⟨before ++ y' :: after, ih.mpr ?_, rfl⟩
              exact ⟨before, y, y', after, rfl, fun z hz => hb z (by simp [hz]), hy, hc, rfl⟩

namespace Item

-- `Exchange p p' names x x'`: going down from `x` by name leads to `p`, and `x'` is `x` with
-- `p'` in its place.
inductive Exchange (p p' : Item) : List String → Item → Item → Prop
  | here : Exchange p p' [] p p'
  | inside {name : String} {names : List String} {e : Entry} {before after : List Item} {x x' : Item}
      (first : ∀ y ∈ before, y.name ≠ name) (found : x.name = name)
      (inner : Exchange p p' names x x') :
      Exchange p p' (name :: names) (.mk e (some (before ++ x :: after)))
        (.mk e (some (before ++ x' :: after)))

theorem child?_eq_some_iff {x c : Item} {name : String} :
    x.child? name = some c ↔ ∃ before after, x.children = before ++ c :: after ∧
      c.name = name ∧ ∀ y ∈ before, y.name ≠ name := by
  rw [child?, List.find?_eq_some_iff_append]
  constructor
  · rintro ⟨hn, before, after, he, hb⟩
    exact ⟨before, after, he, by simpa using hn, by simpa using hb⟩
  · rintro ⟨before, after, he, hn, hb⟩
    exact ⟨by simpa using hn, before, after, he, by simpa using hb⟩

theorem child?_mk {e : Entry} {before after : List Item} {c : Item} {name : String}
    (first : ∀ y ∈ before, y.name ≠ name) (found : c.name = name) :
    (mk e (some (before ++ c :: after))).child? name = some c :=
  child?_eq_some_iff.mpr ⟨before, after, rfl, found, first⟩

-- Putting another item of the same name in an item's place leaves the search for other children
-- alone.
theorem find?_exchange {before after : List Item} {x x' c : Item} {name : String}
    (hname : x'.name = x.name)
    (h : (before ++ x :: after).find? (·.name = name) = some c) :
    (before ++ x' :: after).find? (·.name = name) = some c ∨
      c = x ∧ (before ++ x' :: after).find? (·.name = name) = some x' := by
  rw [List.find?_append] at h ⊢
  cases hb : before.find? (·.name = name) with
  | some b =>
      rw [hb] at h
      exact .inl h
  | none =>
      rw [hb] at h
      by_cases hx : x.name = name
      · have hx' : x'.name = name := hname.trans hx
        rw [Option.none_or, List.find?_cons_of_pos (by simpa using hx)] at h
        rw [Option.none_or, List.find?_cons_of_pos (by simpa using hx')]
        exact .inr ⟨(Option.some.inj h).symm, rfl⟩
      · have hx' : x'.name ≠ name := fun he => hx (hname.symm.trans he)
        rw [Option.none_or, List.find?_cons_of_neg (by simpa using hx)] at h
        rw [Option.none_or, List.find?_cons_of_neg (by simpa using hx')]
        exact .inl h

theorem exists_mk_of_child? {x c : Item} {name : String} (h : x.child? name = some c) :
    ∃ e before after, x = .mk e (some (before ++ c :: after)) ∧ c.name = name ∧
      ∀ y ∈ before, y.name ≠ name := by
  obtain ⟨before, after, he, hn, hb⟩ := child?_eq_some_iff.mp h
  obtain ⟨e, _ | cs⟩ := x
  · simp [children, children?] at he
  · obtain rfl : cs = before ++ c :: after := he
    exact ⟨e, before, after, rfl, hn, hb⟩

theorem descend_cons {x y : Item} {name : String} {names : List String} :
    x.descend (name :: names) = some y ↔ ∃ c, x.child? name = some c ∧ c.descend names = some y := by
  rw [descend]
  cases x.child? name <;> simp

theorem descend_append {x z : Item} {names more : List String} :
    x.descend (names ++ more) = some z ↔
      ∃ y, x.descend names = some y ∧ y.descend more = some z := by
  induction names generalizing x with
  | nil => simp [descend]
  | cons name names ih =>
      rw [List.cons_append, descend_cons]
      simp only [ih, descend_cons]
      constructor
      · rintro ⟨c, hc, y, hy, hz⟩
        exact ⟨y, ⟨c, hc, hy⟩, hz⟩
      · rintro ⟨y, ⟨c, hc, hy⟩, hz⟩
        exact ⟨c, hc, y, hy, hz⟩

theorem mem_children_of_child? {x c : Item} {name : String} (h : x.child? name = some c) :
    c ∈ x.children :=
  List.mem_of_find?_eq_some h

theorem mem_walk_of_descend {x y : Item} {names : List String} (h : x.descend names = some y) :
    y ∈ x.walk := by
  induction names generalizing x with
  | nil =>
      obtain rfl : x = y := Option.some.inj h
      exact self_mem_walk x
  | cons name names ih =>
      obtain ⟨c, hc, hy⟩ := descend_cons.mp h
      exact mem_walk.mpr (.inr ⟨c, mem_children_of_child? hc, ih hy⟩)

-- On a tree that is in place an item's path spells the way down to it.
theorem segments_path_of_descend {x y : Item} {names : List String} (hx : x.Placed)
    (hn : ∀ n ∈ names, Path.IsName n) (h : x.descend names = some y) :
    Path.segments y.path = Path.segments x.path ++ names := by
  induction names generalizing x with
  | nil =>
      obtain rfl : x = y := Option.some.inj h
      simp
  | cons name names ih =>
      obtain ⟨c, hc, hy⟩ := descend_cons.mp h
      have hmem := mem_children_of_child? hc
      obtain ⟨_, _, _, hname, _⟩ := child?_eq_some_iff.mp hc
      rw [ih (hx.child hmem) (fun n h => hn n (List.mem_cons_of_mem _ h)) hy, hx.path_child hmem,
        hname, Path.segments_join, Path.segments_of_isName (hn name List.mem_cons_self),
        List.append_assoc, List.singleton_append]

theorem exists_exchange {x p : Item} {names : List String} (h : x.descend names = some p)
    (p' : Item) : ∃ x', Exchange p p' names x x' := by
  induction names generalizing x with
  | nil =>
      obtain rfl : x = p := Option.some.inj h
      exact ⟨p', .here⟩
  | cons name names ih =>
      obtain ⟨c, hc, hp⟩ := descend_cons.mp h
      obtain ⟨e, before, after, rfl, hname, hb⟩ := exists_mk_of_child? hc
      obtain ⟨c', hc'⟩ := ih hp
      exact ⟨_, .inside hb hname hc'⟩

namespace Exchange

variable {p p' x x' : Item} {names : List String}

theorem descend (h : Exchange p p' names x x') : x.descend names = some p := by
  induction h with
  | here => rfl
  | inside first found _ ih => exact descend_cons.mpr ⟨_, child?_mk first found, ih⟩

-- Whatever `p` and `p'` have in common, the whole trees have.
theorem entry_eq (h : Exchange p p' names x x') {α : Type} (f : Entry → α)
    (hf : f p'.entry = f p.entry) : f x'.entry = f x.entry := by
  cases h with
  | here => exact hf
  | inside => rfl

theorem descend_new (h : Exchange p p' names x x') (hname : p'.name = p.name) :
    x'.descend names = some p' := by
  induction h with
  | here => rfl
  | inside first found inner ih =>
      have hsame := (inner.entry_eq (·.name) hname).trans found
      exact descend_cons.mpr ⟨_, child?_mk first hsame, ih⟩

-- Outside of what is exchanged nothing happens to any item.
theorem entries (h : Exchange p p' names x x') :
    ∃ before after, x.entries = before ++ p.entries ++ after ∧
      x'.entries = before ++ p'.entries ++ after := by
  induction h with
  | here => exact ⟨[], [], by simp, by simp⟩
  | @inside name names e before after x x' first found inner ih =>
      obtain ⟨front, back, hx, hx'⟩ := ih
      refine ⟨e :: before.flatMap Item.entries ++ front, back ++ after.flatMap Item.entries, ?_, ?_⟩
      · simp [entries_mk, hx]
      · simp [entries_mk, hx']

theorem placed_inner (h : Exchange p p' names x x') (hx : x.Placed) : p.Placed :=
  hx.of_mem_walk (mem_walk_of_descend h.descend)

theorem placed (h : Exchange p p' names x x') (hx : x.Placed) (hp : p'.Placed)
    (hname : p'.name = p.name) (hpath : p'.path = p.path) : x'.Placed := by
  induction h with
  | here => exact hp
  | @inside name names e before after x x' first found inner ih =>
      obtain ⟨hk, hcs⟩ := placed_folder_iff.mp hx
      have hx'name : x'.name = x.name := inner.entry_eq (·.name) hname
      have hx'path : x'.path = x.path := inner.entry_eq (·.path) hpath
      obtain ⟨hxpath, hxplaced⟩ := hcs x (by simp)
      refine placed_folder_iff.mpr ⟨hk, fun c hc => ?_⟩
      rcases List.mem_append.mp hc with hc | hc
      · exact hcs c (by simp [hc])
      · rcases List.mem_cons.mp hc with rfl | hc
        · exact ⟨by rw [hx'path, hx'name, hxpath], ih hxplaced⟩
        · exact hcs c (by simp [hc])

end Exchange

theorem rebuild?_eq_some_iff {now : Moment} {edit : Edit} {names : List String} {x x' : Item} :
    x.rebuild? now edit names = some x' ↔
      ∃ e cs cs', edit.run? cs = some cs' ∧
        Exchange (.mk e (some cs)) (.mk { e with modified := now } (some cs')) names x x' := by
  induction names generalizing x x' with
  | nil =>
      obtain ⟨e, _ | cs⟩ := x
      · refine iff_of_false (by simp [rebuild?]) ?_
        rintro ⟨e', cs, cs', -, h⟩
        cases h
      · rw [rebuild?, Option.map_eq_some_iff]
        constructor
        · rintro ⟨cs', hrun, rfl⟩
          exact ⟨e, cs, cs', hrun, .here⟩
        · rintro ⟨e, cs, cs', hrun, h⟩
          cases h
          exact ⟨cs', hrun, rfl⟩
  | cons name names ih =>
      obtain ⟨e, _ | cs⟩ := x
      · refine iff_of_false (by simp [rebuild?]) ?_
        rintro ⟨e', cs, cs', -, h⟩
        cases h
      · rw [rebuild?, Option.map_eq_some_iff]
        constructor
        · rintro ⟨ys, hu, rfl⟩
          obtain ⟨before, c, c', after, rfl, hb, hc, hr, rfl⟩ := updateFirst?_eq_some_iff.mp hu
          obtain ⟨e', cs, cs', hrun, h⟩ := ih.mp hr
          exact ⟨e', cs, cs', hrun, .inside (by simpa using hb) (by simpa using hc) h⟩
        · rintro ⟨e', cs, cs', hrun, h⟩
          cases h with
          | inside first found inner =>
              refine ⟨_, updateFirst?_eq_some_iff.mpr ⟨_, _, _, _, rfl, ?_, ?_, ?_, rfl⟩, rfl⟩
              · simpa using first
              · simpa using found
              · exact ih.mpr ⟨e', cs, cs', hrun, inner⟩

end Item

end DesktopShell

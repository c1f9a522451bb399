import DesktopShell.Proofs.Drive.Protected

namespace DesktopShell

namespace Item

-- What becomes of a tree when the entries `new` come in and the numbers `gone` go: whatever else is
-- there now has been there before, and whatever stays is found as before.
structure Turnover (x x' : Item) (new : List Entry) (gone : List ItemId) : Prop where
  kept : x.entry.Kept x'.entry
  came : ∀ e' ∈ x'.entries, e' ∈ new ∨ ∃ e ∈ x.entries, e.id ∉ gone ∧ e.Kept e'
  added : ∀ e ∈ new, e ∈ x'.entries
  way : ∀ {names : List String} {y : Item}, x.descend names = some y → y.id ∉ gone →
    ∃ y', x'.descend names = some y' ∧ y.entry.Kept y'.entry

section Turnover

variable {x x' p p' t : Item} {new : List Entry} {gone : List ItemId} {names : List String}
  {e : Entry} {now : Moment} {before after cs cs' : List Item}

-- The children are all there is to look at.
theorem turnover_of_children {e' : Entry} (hk : e.Kept e') (htop : e.id ∉ gone)
    (hcame : ∀ f' ∈ cs'.flatMap entries, f' ∈ new ∨
      ∃ f ∈ cs.flatMap entries, f.id ∉ gone ∧ f.Kept f')
    (hadded : ∀ f ∈ new, f ∈ cs'.flatMap entries)
    (hway : ∀ (name : String) (c y : Item) (more : List String),
      cs.find? (·.name = name) = some c → c.descend more = some y → y.id ∉ gone →
        ∃ c' y', cs'.find? (·.name = name) = some c' ∧ c'.descend more = some y' ∧
          y.entry.Kept y'.entry) :
    (mk e (some cs)).Turnover (mk e' (some cs')) new gone where
  kept := hk
  came f' hf' := by
    rw [entries_mk, List.mem_cons] at hf'
    rw [entries_mk]
    rcases hf' with rfl | hf'
    · exact .inr ⟨e, List.mem_cons_self, htop, hk⟩
    · exact (hcame f' hf').imp_right fun ⟨f, hf, h⟩ => ⟨f, List.mem_cons_of_mem e hf, h⟩
  added f hf := by
    rw [entries_mk]
    exact List.mem_cons_of_mem e' (hadded f hf)
  way {names y} hy hid := by
    cases names with
    | nil =>
        obtain rfl := Option.some.inj hy
        exact ⟨_, rfl, hk⟩
    | cons name more =>
        obtain ⟨c, hc, hy⟩ := descend_cons.mp hy
        obtain ⟨c', y', hc', hy', hkept⟩ := hway name c y more hc hy hid
        exact ⟨y', descend_cons.mpr ⟨c', hc', hy'⟩, hkept⟩

theorem mem_flatMap_entries {c : Item} {f : Entry} (hc : c ∈ cs) (hf : f ∈ c.entries) :
    f ∈ cs.flatMap entries :=
  List.mem_flatMap.mpr ⟨c, hc, hf⟩

-- Whose number is not in one child, may be in the others.
theorem notMem_of_sibling {c : Item} (hd : ((before ++ t :: after).flatMap ids).Nodup)
    (hgone : ∀ i ∈ gone, i ∈ t.ids) (hc : c ∈ before ++ after) {f : Entry} (hf : f ∈ c.entries) :
    f.id ∉ gone := by
  intro hi
  obtain ⟨hb, ha⟩ := not_mem_siblings hd (hgone _ hi)
  have hids : f.id ∈ c.ids := List.mem_map_of_mem hf
  rcases List.mem_append.mp hc with hc | hc
  · exact hb (List.mem_flatMap.mpr ⟨c, hc, hids⟩)
  · exact ha (List.mem_flatMap.mpr ⟨c, hc, hids⟩)

theorem notMem_of_parent (hd : (mk e (some (before ++ t :: after))).ids.Nodup)
    (hgone : ∀ i ∈ gone, i ∈ t.ids) : e.id ∉ gone := by
  rw [ids_mk, List.nodup_cons] at hd
  exact fun hi => hd.1 (List.mem_flatMap.mpr ⟨t, by simp, hgone _ hi⟩)

-- What happens in one folder is what happens to the tree.
theorem Exchange.turnover (h : Exchange p p' names x x') (hd : x.ids.Nodup)
    (hp : p.Turnover p' new gone) (hgone : ∀ i ∈ gone, i ∈ p.ids) : x.Turnover x' new gone := by
  induction h with
  | here => exact hp
  | @inside name names e before after x x' first found inner ih =>
      have hin : ∀ i ∈ gone, i ∈ x.ids := by
        intro i hi
        obtain ⟨front, back, hids, -⟩ := inner.exists_ids
        rw [hids]
        simp [hgone i hi]
      have htop := notMem_of_parent hd hin
      rw [ids_mk, List.nodup_cons] at hd
      have hx : x.ids.Nodup := by
        have hall := hd.2
        rw [List.flatMap_append, List.flatMap_cons] at hall
        exact (List.nodup_append.mp (List.nodup_append.mp hall).2.1).1
      have ih := ih hx
      refine turnover_of_children (.refl e) htop (fun f' hf' => ?_) (fun f hf => ?_) ?_
      · obtain ⟨c, hc, hin'⟩ := List.mem_flatMap.mp hf'
        rw [List.mem_append, List.mem_cons, or_left_comm, ← List.mem_append] at hc
        rcases hc with rfl | hc
        · exact (ih.came f' hin').imp_right fun ⟨f, hf, h⟩ => ⟨f, mem_flatMap_entries (by simp) hf, h⟩
        · have hmem := ((List.sublist_cons_self x after).append_left before).subset hc
          exact .inr ⟨f', mem_flatMap_entries hmem hin', notMem_of_sibling hd.2 hin hc hin', .refl f'⟩
      · exact mem_flatMap_entries (by simp) (ih.added f hf)
      · intro n c y more hc hy hid
        rcases find?_exchange ih.kept.name_eq hc with hc' | ⟨rfl, hc'⟩
        · exact ⟨c, y, hc', hy, .refl _⟩
        · obtain ⟨y', hy', hkept⟩ := ih.way hy hid
          exact ⟨x', y', hc', hy', hkept⟩

theorem turnover_insert (e : Entry) (cs : List Item) (now : Moment) {item : Item}
    (hleaf : item.children = []) :
    (mk e (some cs)).Turnover (mk (e.touch now) (some (cs ++ [item]))) [item.entry] [] := by
  have hentries : (cs ++ [item]).flatMap entries = cs.flatMap entries ++ [item.entry] := by
    rw [List.flatMap_append, List.flatMap_singleton, entries_eq, hleaf]
    rfl
  refine turnover_of_children (.touch now e) List.not_mem_nil (fun f' hf' => ?_) (fun f hf => ?_) ?_
  · rw [hentries] at hf'
    rcases List.mem_append.mp hf' with hf' | hf'
    · exact .inr ⟨f', hf', List.not_mem_nil, .refl f'⟩
    · exact .inl hf'
  · rw [hentries]
    exact List.mem_append_right _ hf
  · intro n c y more hc hy _
    have hc' : (cs ++ [item]).find? (·.name = n) = some c := by
      rw [List.find?_append]
      exact Option.or_eq_some_iff.mpr (.inl hc)
    exact ⟨c, y, hc', hy, .refl _⟩

theorem turnover_rewrite (e : Entry) (now : Moment) (content : String) :
    (mk e (some (before ++ t :: after))).Turnover
      (mk (e.touch now) (some (before ++ t.rewrite now content :: after))) [] [] := by
  refine turnover_of_children (.touch now e) List.not_mem_nil (fun f' hf' => .inr ?_) (by simp) ?_
  · rw [List.flatMap_append, List.flatMap_cons, entries_rewrite] at hf'
    rw [List.flatMap_append, List.flatMap_cons, entries_eq t]
    simp only [List.mem_append, List.mem_cons] at hf' ⊢
    rcases hf' with hf' | (rfl | hf') | hf'
    · exact ⟨f', .inl hf', List.not_mem_nil, .refl f'⟩
    · exact ⟨t.entry, .inr (.inl (.inl rfl)), List.not_mem_nil, kept_rewrite now content t⟩
    · exact ⟨f', .inr (.inl (.inr hf')), List.not_mem_nil, .refl f'⟩
    · exact ⟨f', .inr (.inr hf'), List.not_mem_nil, .refl f'⟩
  · intro n c y more hc hy _
    have hname : (t.rewrite now content).name = t.name := rfl
    rcases find?_exchange hname hc with hc' | ⟨rfl, hc'⟩
    · exact ⟨c, y, hc', hy, .refl _⟩
    · cases more with
      | nil =>
          obtain rfl : c = y := Option.some.inj hy
          exact ⟨_, _, hc', rfl, kept_rewrite now content c⟩
      | cons m more =>
          obtain ⟨d, hd, hy⟩ := descend_cons.mp hy
          exact ⟨_, y, hc', descend_cons.mpr ⟨d, hd, hy⟩, .refl _⟩

theorem turnover_remove (now : Moment) (hd : (mk e (some (before ++ t :: after))).ids.Nodup) :
    (mk e (some (before ++ t :: after))).Turnover (mk (e.touch now) (some (before ++ after))) []
      t.ids := by
  have htop := notMem_of_parent hd fun _ hi => hi
  rw [ids_mk, List.nodup_cons] at hd
  refine turnover_of_children (.touch now e) htop (fun f' hf' => .inr ?_) (by simp) ?_
  · obtain ⟨c, hc, hf'⟩ := List.mem_flatMap.mp hf'
    have hmem := ((List.sublist_cons_self t after).append_left before).subset hc
    exact ⟨f', mem_flatMap_entries hmem hf', notMem_of_sibling hd.2 (fun _ hi => hi) hc hf', .refl f'⟩
  · intro n c y more hc hy hid
    have hne : c ≠ t := by
      rintro rfl
      exact hid (id_mem_ids (mem_walk_of_descend hy))
    exact ⟨c, y, find?_removed hc hne, hy, .refl _⟩

end Turnover

end Item

namespace Change

variable {root : Item} {stamp : Stamp} {change : Change} {plan : Plan}

-- The entry that a change about an item adds, if it makes the item.
def newcomers (subject : Item) : Change → List Entry
  | .create .. => [subject.entry]
  | .update .. | .delete _ => []

-- The numbers that it takes away, if it deletes the item.
def departed (subject : Item) : Change → List ItemId
  | .delete _ => subject.ids
  | .create .. | .update .. => []

theorem turnover_plan? (hr : root.WellFormed) (h : change.plan? root stamp = some plan) :
    root.Turnover plan.root (change.newcomers plan.subject) (change.departed plan.subject) := by
  cases change with
  | create what folder name =>
      obtain ⟨e, cs, -, hsubject, hex⟩ := (plan?_create_iff hr.grounded).mp h
      have hleaf : plan.subject.children = [] := by
        rw [hsubject]
        exact Item.children_make stamp what name _
      exact hex.turnover hr.distinct (Item.turnover_insert e cs stamp.now hleaf)
        fun i hi => by cases hi
  | update path content =>
      obtain ⟨-, -, e, before, after, -, hex⟩ := (plan?_update_iff hr).mp h
      exact hex.turnover hr.distinct (Item.turnover_rewrite e stamp.now content)
        fun i hi => by cases hi
  | delete path =>
      obtain ⟨-, -, e, before, after, -, hex⟩ := (plan?_delete_iff hr).mp h
      have hd := Item.ids_nodup_of_descend hr.distinct hex.descend
      refine hex.turnover hr.distinct (Item.turnover_remove stamp.now hd) fun i hi => ?_
      rw [Item.ids_mk]
      exact List.mem_cons_of_mem _ (List.mem_flatMap.mpr ⟨plan.subject, by simp, hi⟩)

end Change

end DesktopShell

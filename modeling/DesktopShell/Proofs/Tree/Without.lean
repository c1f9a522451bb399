import DesktopShell.Proofs.Drive.Change

namespace DesktopShell.Item

mutual

-- The tree without the items of one number and what is in them. The folder that loses a child
-- is modified by that.
def without (now : Moment) (id : ItemId) : Item → Item
  | mk e none => mk e none
  | mk e (some cs) =>
      mk (if id ∈ cs.map Item.id then e.touch now else e) (some (withoutAll now id cs))

def withoutAll (now : Moment) (id : ItemId) : List Item → List Item
  | [] => []
  | x :: xs =>
      if x.id = id then withoutAll now id xs else without now id x :: withoutAll now id xs

end

variable (now : Moment) {id : ItemId}

theorem withoutAll_append (xs ys : List Item) :
    withoutAll now id (xs ++ ys) = withoutAll now id xs ++ withoutAll now id ys := by
  induction xs with
  | nil => rfl
  | cons x xs ih =>
      rw [List.cons_append, withoutAll, withoutAll, ih]
      split <;> rfl

theorem not_mem_map_id {cs : List Item} (h : id ∉ cs.flatMap ids) : id ∉ cs.map Item.id := by
  intro hid
  obtain ⟨c, hc, rfl⟩ := List.mem_map.mp hid
  exact h (id_mem_flatMap_ids hc)

mutual

-- Where there is no such number nothing changes.
theorem without_of_not_mem : ∀ {x : Item}, id ∉ x.ids → x.without now id = x
  | mk e none, _ => rfl
  | mk e (some cs), h => by
      rw [ids_mk, List.mem_cons, not_or] at h
      rw [without, if_neg (not_mem_map_id h.2), withoutAll_of_not_mem h.2]

theorem withoutAll_of_not_mem : ∀ {xs : List Item}, id ∉ xs.flatMap ids → withoutAll now id xs = xs
  | [], _ => rfl
  | x :: xs, h => by
      rw [List.flatMap_cons, List.mem_append, not_or] at h
      have hid : x.id ≠ id := by
        intro he
        rw [← he] at h
        exact h.1 (id_mem_ids (self_mem_walk x))
      rw [withoutAll, if_neg hid, without_of_not_mem h.1, withoutAll_of_not_mem h.2]

end

theorem id_without (x : Item) : (x.without now id).id = x.id := by
  obtain ⟨e, _ | cs⟩ := x
  · rfl
  · rw [without]
    split <;> rfl

-- To take a child out of the folder that it is in is to do without its number.
theorem Exchange.eq_without {e : Entry} {before after : List Item} {t x x' : Item}
    {names : List String}
    (h : Exchange (mk e (some (before ++ t :: after))) (mk (e.touch now) (some (before ++ after)))
      names x x') (hd : x.ids.Nodup) :
    t.id ∈ x.children.flatMap ids ∧ x' = x.without now t.id := by
  induction h with
  | here =>
      rw [ids_mk] at hd
      have hself := id_mem_ids (self_mem_walk t)
      obtain ⟨hb, ha⟩ := not_mem_siblings (List.nodup_cons.mp hd).2 hself
      have hmem : t ∈ before ++ t :: after := by simp
      refine ⟨id_mem_flatMap_ids hmem, ?_⟩
      rw [without, if_pos (List.mem_map_of_mem hmem), withoutAll_append, withoutAll, if_pos rfl,
        withoutAll_of_not_mem now hb, withoutAll_of_not_mem now ha]
  | @inside name names e' before' after' c c' first found inner ih =>
      rw [ids_mk] at hd
      have hchildren := (List.nodup_cons.mp hd).2
      have hc : c.ids.Nodup := by
        rw [List.flatMap_append, List.flatMap_cons] at hchildren
        exact (List.nodup_append.mp (List.nodup_append.mp hchildren).2.1).1
      obtain ⟨hbelow, rfl⟩ := ih hc
      have hmem : t.id ∈ c.ids := by
        rw [ids_eq]
        exact List.mem_cons_of_mem _ hbelow
      have hne : c.id ≠ t.id := by
        intro he
        rw [ids_eq, he] at hc
        exact (List.nodup_cons.mp hc).1 hbelow
      -- The number is somewhere below `c`, so it is nowhere else in this folder.
      obtain ⟨hb, ha⟩ := not_mem_siblings hchildren hmem
      have hnone : t.id ∉ (before' ++ c :: after').map Item.id := by
        rw [List.map_append, List.map_cons, List.mem_append, List.mem_cons, not_or, not_or]
        exact ⟨not_mem_map_id hb, hne.symm, not_mem_map_id ha⟩
      refine ⟨List.mem_flatMap.mpr ⟨c, by simp [children, children?], hmem⟩, ?_⟩
      rw [without, if_neg hnone, withoutAll_append, withoutAll, if_neg hne,
        withoutAll_of_not_mem now hb, withoutAll_of_not_mem now ha]

theorem mem_withoutAll {xs : List Item} {y : Item} :
    y ∈ withoutAll now id xs ↔ ∃ c ∈ xs, c.id ≠ id ∧ y = c.without now id := by
  induction xs with
  | nil => simp [withoutAll]
  | cons x xs ih =>
      rw [withoutAll]
      by_cases hx : x.id = id
      · rw [if_pos hx, ih]
        simp [hx]
      · rw [if_neg hx, List.mem_cons, ih]
        simp [hx]

theorem ids_without (x : Item) :
    (x.without now id).ids = x.id :: (withoutAll now id x.children).flatMap ids := by
  rw [ids_eq, id_without]
  obtain ⟨e, _ | cs⟩ := x <;> rfl

theorem id_not_mem_without {x : Item} (h : x.id ≠ id) : id ∉ (x.without now id).ids := by
  induction x using childInduction with
  | step x ih =>
      rw [ids_without, List.mem_cons, not_or]
      refine ⟨h.symm, fun hid => ?_⟩
      obtain ⟨y, hy, hid⟩ := List.mem_flatMap.mp hid
      obtain ⟨c, hc, hne, rfl⟩ := (mem_withoutAll now).mp hy
      exact ih c hc hne hid

-- What is not in the part that is gone stays.
theorem id_mem_without {x z : Item} (hz : z ∈ x.walk) (hkeep : ∀ t ∈ x.walk, t.id = id → z ∉ t.walk) :
    z.id ∈ (x.without now id).ids := by
  induction x using childInduction with
  | step x ih =>
      rw [ids_without]
      rcases mem_walk.mp hz with rfl | ⟨c, hc, hzc⟩
      · exact List.mem_cons_self
      · have hcx : c ∈ x.walk := mem_walk.mpr (.inr ⟨c, hc, self_mem_walk c⟩)
        have hne : c.id ≠ id := fun he => hkeep c hcx he hzc
        have hbelow := ih c hc hzc fun t ht => hkeep t (mem_walk_trans ht hcx)
        refine List.mem_cons_of_mem _ (List.mem_flatMap.mpr ⟨_, ?_, hbelow⟩)
        exact (mem_withoutAll now).mpr ⟨c, hc, hne, rfl⟩

theorem count_le_of_mem_walk {x z : Item} (hz : z ∈ x.walk) : z = x ∨ z.count < x.count := by
  induction x using childInduction with
  | step x ih =>
      rcases mem_walk.mp hz with rfl | ⟨c, hc, hz⟩
      · exact .inl rfl
      · have hlt := count_lt_of_mem_children hc
        rcases ih c hc hz with rfl | hless
        · exact .inr hlt
        · exact .inr (by omega)

theorem eq_of_mem_walk {x z : Item} (hz : z ∈ x.walk) (hx : x ∈ z.walk) : z = x := by
  rcases count_le_of_mem_walk hz with he | hlt
  · exact he
  · rcases count_le_of_mem_walk hx with he | hlt'
    · exact he.symm
    · omega

-- No item is below itself.
theorem not_mem_walk_of_child {x c : Item} (hc : c ∈ x.children) : x ∉ c.walk := by
  intro hx
  have hlt := count_lt_of_mem_children hc
  obtain rfl := eq_of_mem_walk hx (mem_walk.mpr (.inr ⟨c, hc, self_mem_walk c⟩))
  exact Nat.lt_irrefl _ hlt

-- Different items leave different trees behind when they go.
theorem WellFormed.without_ne {root y z : Item} (hr : root.WellFormed) (hy : y ∈ root.walk)
    (hz : z ∈ root.walk) (hyroot : y ≠ root) (hzroot : z ≠ root) (hne : y ≠ z) :
    root.without now y.id ≠ root.without now z.id := by
  have hself := self_mem_walk root
  have hyid : root.id ≠ y.id := fun he => hyroot (hr.eq_of_id hy hself he.symm)
  have hzid : root.id ≠ z.id := fun he => hzroot (hr.eq_of_id hz hself he.symm)
  intro he
  -- If `y` lies in `z` then `z` outlives `y`, and otherwise `y` outlives `z`.
  by_cases hyz : y ∈ z.walk
  · have hstays : z.id ∈ (root.without now y.id).ids := by
      refine id_mem_without now hz fun t ht hid hzt => hne ?_
      obtain rfl := hr.eq_of_id ht hy hid
      exact eq_of_mem_walk hyz hzt
    rw [he] at hstays
    exact id_not_mem_without now hzid hstays
  · have hstays : y.id ∈ (root.without now z.id).ids := by
      refine id_mem_without now hy fun t ht hid hyt => hyz ?_
      obtain rfl := hr.eq_of_id ht hz hid
      exact hyt
    rw [← he] at hstays
    exact id_not_mem_without now hyid hstays

end DesktopShell.Item

namespace DesktopShell.Change

variable {root t : Item} {path : String}

theorem plan?_delete_free (hr : root.WellFormed) (stamp : Stamp) (ht : target? root path = some t)
    (hfree : t.containsProtected = false) :
    plan? root stamp (.delete path) = some ⟨root.without stamp.now t.id, t⟩ := by
  obtain ⟨e, before, after, hfolder, hfirst⟩ := hr.grounded.exists_folder ht
  obtain ⟨root', hex⟩ := Item.exists_exchange hfolder (.mk (e.touch stamp.now) (some (before ++ after)))
  obtain ⟨-, rfl⟩ := hex.eq_without stamp.now hr.distinct
  exact (plan?_delete_iff hr).mpr ⟨ht, hfree, e, before, after, hfirst, hex⟩

-- What a deletion does to a well-formed tree.
theorem plan?_delete_eq (hr : root.WellFormed) (stamp : Stamp) (path : String) :
    plan? root stamp (.delete path) =
      ((target? root path).filter fun t => !t.containsProtected).map fun t =>
        ⟨root.without stamp.now t.id, t⟩ := by
  cases hplan : plan? root stamp (.delete path) with
  | some plan =>
      obtain ⟨htarget, hfree, -⟩ := plan?_delete.mp hplan
      have hsame := plan?_delete_free hr stamp htarget hfree
      rw [htarget, Option.filter_some, if_pos (by simp [hfree]), Option.map_some, ← hsame, hplan]
  | none =>
      cases ht : target? root path with
      | none => rfl
      | some t =>
          cases hfree : t.containsProtected with
          | true =>
              rw [Option.filter_some, if_neg (by simp [hfree])]
              rfl
          | false => exact absurd (hplan.symm.trans (plan?_delete_free hr stamp ht hfree)) (by simp)

end DesktopShell.Change

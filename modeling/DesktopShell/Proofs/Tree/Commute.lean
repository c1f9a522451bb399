import DesktopShell.Proofs.Tree.Exchange

namespace DesktopShell

section UpdateFirst

variable {α : Type} {test test' : α → Bool} {change change' : α → Option α} {xs : List α}

-- Only the first element that passes the test matters.
theorem updateFirst?_congr (h : ∀ x, xs.find? test = some x → change x = change' x) :
    updateFirst? test change xs = updateFirst? test change' xs := by
  induction xs with
  | nil => rfl
  | cons x xs ih =>
      rw [updateFirst?, updateFirst?]
      by_cases hx : test x = true
      · rw [if_pos hx, if_pos hx, h x (List.find?_cons_of_pos hx)]
      · rw [if_neg hx, if_neg hx, ih fun y hy => h y ((List.find?_cons_of_neg hx).trans hy)]

-- An element that fails the test is passed over.
theorem bind_updateFirst?_cons {x : α} (hx : ¬test x = true) (found? : Option (List α)) :
    (found?.map (x :: ·)).bind (updateFirst? test change) =
      (found?.bind (updateFirst? test change)).map (x :: ·) := by
  cases found? with
  | none => rfl
  | some ys => rw [Option.map_some, Option.bind_some, Option.bind_some, updateFirst?, if_neg hx]

theorem updateFirst?_bind_self (hkeep : ∀ x x', change x = some x' → test x' = test x) :
    (updateFirst? test change xs).bind (updateFirst? test change') =
      updateFirst? test (fun x => (change x).bind change') xs := by
  induction xs with
  | nil => rfl
  | cons x xs ih =>
      rw [updateFirst?, updateFirst?]
      by_cases hx : test x = true
      · rw [if_pos hx, if_pos hx]
        cases hc : change x with
        | none => rfl
        | some x' =>
            have hx' : test x' = true := (hkeep x x' hc).trans hx
            simp [updateFirst?, hx']
      · rw [if_neg hx, if_neg hx, bind_updateFirst?_cons hx, ih]

-- The first element is changed, and some later one.
theorem updateFirst?_comm_head {x : α} (hx : test x = true)
    (hkeep : ∀ y, change x = some y → test' y = false) :
    ((change x).map (· :: xs)).bind (updateFirst? test' change') =
      ((updateFirst? test' change' xs).map (x :: ·)).bind (updateFirst? test change) := by
  cases hc : change x with
  | none => cases updateFirst? test' change' xs <;> simp [updateFirst?, hx, hc]
  | some y =>
      have hy : ¬test' y = true := by simp [hkeep y hc]
      rw [Option.map_some, Option.bind_some, updateFirst?, if_neg hy]
      cases updateFirst? test' change' xs <;> simp [updateFirst?, hx, hc]

-- Changes commute when no element is meant by both, and neither makes the other mean another one.
theorem updateFirst?_comm (hapart : ∀ x ∈ xs, test x = true → test' x = false)
    (hkeep : ∀ x ∈ xs, ∀ x', test x = true → change x = some x' → test' x' = false)
    (hkeep' : ∀ x ∈ xs, ∀ x', test' x = true → change' x = some x' → test x' = false) :
    (updateFirst? test change xs).bind (updateFirst? test' change') =
      (updateFirst? test' change' xs).bind (updateFirst? test change) := by
  induction xs with
  | nil => rfl
  | cons x xs ih =>
      obtain ⟨hx, hrest⟩ := List.forall_mem_cons.mp hapart
      obtain ⟨hk, hkrest⟩ := List.forall_mem_cons.mp hkeep
      obtain ⟨hk', hkrest'⟩ := List.forall_mem_cons.mp hkeep'
      rw [updateFirst?, updateFirst?]
      by_cases h : test x = true
      · have h' : ¬test' x = true := by simp [hx h]
        rw [if_pos h, if_neg h']
        exact updateFirst?_comm_head h fun y => hk y h
      · rw [if_neg h]
        by_cases h' : test' x = true
        · rw [if_pos h']
          exact (updateFirst?_comm_head h' fun y => hk' y h').symm
        · rw [if_neg h', bind_updateFirst?_cons h', bind_updateFirst?_cons h,
            ih hrest hkrest hkrest']

theorem updateFirst?_append (h : ∃ x ∈ xs, test x = true) (ys : List α) :
    updateFirst? test change (xs ++ ys) = (updateFirst? test change xs).map (· ++ ys) := by
  induction xs with
  | nil => simp at h
  | cons x xs ih =>
      rw [List.cons_append, updateFirst?, updateFirst?]
      by_cases hx : test x = true
      · rw [if_pos hx, if_pos hx, Option.map_map]
        rfl
      · have hrest : ∃ y ∈ xs, test y = true := by simpa [hx] using h
        rw [if_neg hx, if_neg hx, ih hrest, Option.map_map, Option.map_map]
        rfl

theorem updateFirst?_filter {keeps : α → Bool} (h : ∀ x ∈ xs, test x = true → keeps x = true)
    (hkeep : ∀ x ∈ xs, ∀ x', test x = true → change x = some x' → keeps x' = true) :
    updateFirst? test change (xs.filter keeps) =
      (updateFirst? test change xs).map (·.filter keeps) := by
  induction xs with
  | nil => rfl
  | cons x xs ih =>
      obtain ⟨hself, hrest⟩ := List.forall_mem_cons.mp h
      obtain ⟨hk, hkrest⟩ := List.forall_mem_cons.mp hkeep
      have hbelow := ih hrest hkrest
      rw [updateFirst?]
      by_cases hx : test x = true
      · rw [if_pos hx, List.filter_cons_of_pos (hself hx), updateFirst?, if_pos hx, Option.map_map]
        cases hc : change x with
        | none => rfl
        | some x' =>
            have hx' : keeps x' = true := hk x' hx hc
            simp [hx']
      · rw [if_neg hx, Option.map_map]
        by_cases hx' : keeps x = true
        · rw [List.filter_cons_of_pos hx', updateFirst?, if_neg hx, hbelow, Option.map_map]
          congr 1
          funext ys
          exact (List.filter_cons_of_pos hx').symm
        · rw [List.filter_cons_of_neg hx', hbelow]
          congr 1
          funext ys
          exact (List.filter_cons_of_neg hx').symm

theorem exists_of_updateFirst? (h : (updateFirst? test change xs).isSome = true) :
    ∃ x ∈ xs, test x = true := by
  obtain ⟨ys, hys⟩ := Option.isSome_iff_exists.mp h
  obtain ⟨before, x, x', after, rfl, -, hx, -⟩ := updateFirst?_eq_some_iff.mp hys
  exact ⟨x, by simp, hx⟩

theorem isSome_of_updateFirst? {x : α} (h : (updateFirst? test change xs).isSome = true)
    (hx : xs.find? test = some x) : (change x).isSome = true := by
  obtain ⟨ys, hys⟩ := Option.isSome_iff_exists.mp h
  obtain ⟨before, y, y', after, rfl, hbefore, hy, hy', -⟩ := updateFirst?_eq_some_iff.mp hys
  have hfind : (before ++ y :: after).find? test = some y :=
    List.find?_eq_some_iff_append.mpr ⟨hy, before, after, rfl, by simpa using hbefore⟩
  obtain rfl : y = x := Option.some.inj (hfind.symm.trans hx)
  rw [hy']
  rfl

end UpdateFirst

namespace Edit

-- The number that an edit is about.
def about : Edit → ItemId
  | insert item => item.id
  | replace item => item.id
  | remove id => id

def inserts : Edit → Bool
  | insert _ => true
  | replace _ | remove _ => false

-- An edit that leaves alone whatever child has this name.
def Spares (name : String) (cs : List Item) : Edit → Prop
  | insert _ => True
  | replace item => item.name ≠ name ∧ ∀ c ∈ cs, c.name = name → c.id ≠ item.id
  | remove id => ∀ c ∈ cs, c.name = name → c.id ≠ id

variable {edit edit' : Edit} {name : String} {cs cs' : List Item} {c : Item}
  {change : Item → Option Item}

theorem find?_run? (h : edit.Spares name cs) (hrun : edit.run? cs = some cs')
    (hc : cs.find? (·.name = name) = some c) : cs'.find? (·.name = name) = some c := by
  cases edit with
  | insert item =>
      obtain rfl : cs ++ [item] = cs' := Option.some.inj hrun
      rw [List.find?_append, hc]
      rfl
  | replace item =>
      obtain ⟨before, x, x', after, rfl, -, hx, hx', rfl⟩ := updateFirst?_eq_some_iff.mp hrun
      obtain rfl : item = x' := Option.some.inj hx'
      have hxid : x.id = item.id := by simpa using hx
      have hxname : x.name ≠ name := fun hn => h.2 x (by simp) hn hxid
      have hitem : item.name ≠ name := h.1
      rw [List.find?_append, List.find?_cons_of_neg (by simpa using hxname)] at hc
      rwa [List.find?_append, List.find?_cons_of_neg (by simpa using hitem)]
  | remove id =>
      obtain rfl : cs.filter (·.id ≠ id) = cs' := Option.some.inj hrun
      obtain ⟨hname, before, after, rfl, hbefore⟩ := List.find?_eq_some_iff_append.mp hc
      have hkept : c.id ≠ id := h c (by simp) (by simpa using hname)
      rw [List.filter_append, List.filter_cons_of_pos (by simpa using hkept)]
      refine List.find?_eq_some_iff_append.mpr ⟨hname, _, _, rfl, fun y hy => ?_⟩
      exact hbefore y (List.mem_filter.mp hy).1

-- An edit of a folder commutes with a change below a child that it spares.
theorem run?_comm_updateFirst? (h : edit.Spares name cs)
    (hsome : (updateFirst? (·.name = name) change cs).isSome = true)
    (hid : ∀ c c', change c = some c' → c'.id = c.id) :
    (edit.run? cs).bind (updateFirst? (·.name = name) change) =
      (updateFirst? (·.name = name) change cs).bind edit.run? := by
  cases edit with
  | insert item =>
      rw [run?, Option.bind_some, updateFirst?_append (exists_of_updateFirst? hsome)]
      cases updateFirst? (·.name = name) change cs <;> rfl
  | replace item =>
      apply updateFirst?_comm
      · intro c hc hitem
        have hitem : c.id = item.id := by simpa using hitem
        have hother : c.name ≠ name := fun hn => h.2 c hc hn hitem
        simpa using hother
      · intro c _ c' _ he
        obtain rfl : item = c' := Option.some.inj he
        simpa using h.1
      · intro c hc c' hn he
        have hother := h.2 c hc (by simpa using hn)
        simpa [hid c c' he] using hother
  | remove id =>
      rw [run?, Option.bind_some, updateFirst?_filter]
      · cases updateFirst? (·.name = name) change cs <;> rfl
      · intro c hc hn
        simpa using h c hc (by simpa using hn)
      · intro c hc c' hn he
        have hother := h c hc (by simpa using hn)
        simpa [hid c c' he] using hother

theorem run?_insert_comm {item : Item} (hid : item.id ≠ edit.about) (hother : edit.inserts = false)
    (hsome : (edit.run? cs).isSome = true) :
    ((insert item).run? cs).bind edit.run? = (edit.run? cs).bind (insert item).run? := by
  cases edit with
  | insert item' => cases hother
  | replace item' =>
      rw [run?, Option.bind_some, run?, updateFirst?_append (exists_of_updateFirst? hsome), run?]
      cases updateFirst? (·.id = item'.id) (fun _ => some item') cs <;> rfl
  | remove id =>
      have hkept : item.id ≠ id := hid
      have hlast : [item].filter (·.id ≠ id) = [item] := List.filter_cons_of_pos (by simpa using hkept)
      simp only [run?, Option.bind_some, List.filter_append, hlast]

theorem run?_replace_remove_comm {item : Item} {id : ItemId} (hid : item.id ≠ id) :
    ((replace item).run? cs).bind (remove id).run? =
      ((remove id).run? cs).bind (replace item).run? := by
  rw [run?, run?, Option.bind_some, run?, updateFirst?_filter]
  · cases updateFirst? (·.id = item.id) (fun _ => some item) cs <;> rfl
  · intro c _ hc
    have hc : c.id = item.id := by simpa using hc
    simpa [hc] using hid
  · intro c _ c' _ he
    obtain rfl : item = c' := Option.some.inj he
    simpa using hid

-- Edits of one folder commute when they are about different items and at most one adds an item.
theorem run?_comm (hid : edit.about ≠ edit'.about)
    (hone : edit.inserts = false ∨ edit'.inserts = false)
    (hsome : (edit.run? cs).isSome = true) (hsome' : (edit'.run? cs).isSome = true) :
    (edit.run? cs).bind edit'.run? = (edit'.run? cs).bind edit.run? := by
  cases edit with
  | insert item =>
      have hother : edit'.inserts = false := hone.resolve_left (by simp [inserts])
      exact run?_insert_comm hid hother hsome'
  | replace item =>
      cases edit' with
      | insert item' => exact (run?_insert_comm hid.symm rfl hsome).symm
      | replace item' =>
          have hne : item.id ≠ item'.id := hid
          refine updateFirst?_comm (fun c _ hc => ?_) (fun c _ c' _ he => ?_) fun c _ c' _ he => ?_
          · have hc : c.id = item.id := by simpa using hc
            simpa [hc] using hne
          · obtain rfl : item = c' := Option.some.inj he
            simpa using hne
          · obtain rfl : item' = c' := Option.some.inj he
            simpa using hne.symm
      | remove id => exact run?_replace_remove_comm hid
  | remove id =>
      cases edit' with
      | insert item' => exact (run?_insert_comm hid.symm rfl hsome).symm
      | replace item' => exact (run?_replace_remove_comm hid.symm).symm
      | remove id' =>
          simp only [run?, Option.bind_some, List.filter_filter, Bool.and_comm]

end Edit

namespace Item

variable {x x' y : Item} {now : Moment} {edit edit' : Edit} {names names' way : List String}

-- An edit of the folder at `names` that leaves the way down to somewhere else alone.
def Spares (x : Item) (names : List String) (edit : Edit) (way : List String) : Prop :=
  ∀ name rest e cs, way = names ++ name :: rest → x.descend names = some (.mk e (some cs)) →
    edit.Spares name cs

theorem Spares.child {c : Item} {name : String} (h : x.Spares (name :: names) edit (name :: way))
    (hc : x.child? name = some c) : c.Spares names edit way := by
  rintro m rest e cs rfl hfolder
  exact h m rest e cs rfl (descend_cons.mpr ⟨c, hc, hfolder⟩)

theorem entry_rebuild? {α : Type} (f : Entry → α) (hf : ∀ e : Entry, f { e with modified := now } = f e)
    (h : x.rebuild? now edit names = some x') : f x'.entry = f x.entry := by
  obtain ⟨e, cs, cs', -, hex⟩ := rebuild?_eq_some_iff.mp h
  exact hex.entry_eq f (hf e)

theorem id_rebuild? (h : x.rebuild? now edit names = some x') : x'.id = x.id :=
  entry_rebuild? (·.id) (fun _ => rfl) h

theorem name_rebuild? (h : x.rebuild? now edit names = some x') : x'.name = x.name :=
  entry_rebuild? (·.name) (fun _ => rfl) h

-- Where a way leads after an edit that spares it: to what was there before, itself edited further
-- down if that lies on the way to the edit.
theorem descend_rebuild? (h : x.rebuild? now edit names = some x') (hspares : x.Spares names edit way)
    (hy : x.descend way = some y) :
    ∃ y', x'.descend way = some y' ∧
      (y' = y ∨ ∃ more, way ++ more = names ∧ y.rebuild? now edit more = some y') := by
  induction names generalizing x x' way with
  | nil =>
      cases way with
      | nil =>
          obtain rfl : x = y := Option.some.inj hy
          exact ⟨x', rfl, .inr ⟨[], rfl, h⟩⟩
      | cons name rest =>
          obtain ⟨e, _ | cs⟩ := x
          · simp [rebuild?] at h
          · rw [rebuild?] at h
            obtain ⟨cs', hrun, rfl⟩ := Option.map_eq_some_iff.mp h
            obtain ⟨c, hc, hy⟩ := descend_cons.mp hy
            have hc' := Edit.find?_run? (hspares name rest e cs rfl rfl) hrun hc
            exact ⟨y, descend_cons.mpr ⟨c, hc', hy⟩, .inl rfl⟩
  | cons first names ih =>
      cases way with
      | nil =>
          obtain rfl : x = y := Option.some.inj hy
          exact ⟨x', rfl, .inr ⟨first :: names, rfl, h⟩⟩
      | cons name rest =>
          obtain ⟨e, _ | cs⟩ := x
          · simp [rebuild?] at h
          · rw [rebuild?] at h
            obtain ⟨cs', hupdate, rfl⟩ := Option.map_eq_some_iff.mp h
            obtain ⟨before, c, c', after, rfl, -, hfirst, hinner, rfl⟩ :=
              updateFirst?_eq_some_iff.mp hupdate
            obtain ⟨d, hd, hbelow⟩ := descend_cons.mp hy
            rcases find?_exchange (name_rebuild? hinner) hd with hd' | ⟨rfl, hd'⟩
            · exact ⟨y, descend_cons.mpr ⟨d, hd', hbelow⟩, .inl rfl⟩
            · have hname : d.name = name := by simpa using List.find?_some hd
              have hfirst : d.name = first := by simpa using hfirst
              obtain rfl : name = first := hname.symm.trans hfirst
              obtain ⟨y', hy', hcase⟩ := ih hinner (hspares.child hd) hbelow
              refine ⟨y', descend_cons.mpr ⟨c', hd', hy'⟩, hcase.imp_right ?_⟩
              rintro ⟨more, rfl, hmore⟩
              exact ⟨more, rfl, hmore⟩

-- Edits of a folder and of one below it.
theorem rebuild?_comm_below {e : Entry} {cs : List Item} {name : String} {rest : List String}
    (hspares : edit.Spares name cs)
    (hsome : ((mk e (some cs)).rebuild? now edit' (name :: rest)).isSome = true) :
    ((mk e (some cs)).rebuild? now edit []).bind (rebuild? now edit' (name :: rest)) =
      ((mk e (some cs)).rebuild? now edit' (name :: rest)).bind (rebuild? now edit []) := by
  rw [rebuild?, Option.isSome_map] at hsome
  have hcomm := Edit.run?_comm_updateFirst? hspares hsome fun c c' => id_rebuild?
  have hcomm := congrArg (Option.map fun cs => mk { e with modified := now } (some cs)) hcomm
  simp only [rebuild?, Option.bind_map, Option.map_bind] at hcomm ⊢
  exact hcomm

-- Edits commute when each spares the way to the other, and those of one folder when they are about
-- different items and at most one adds an item.
theorem rebuild?_comm (hsome : (x.rebuild? now edit names).isSome = true)
    (hsome' : (x.rebuild? now edit' names').isSome = true)
    (hspares : x.Spares names edit names') (hspares' : x.Spares names' edit' names)
    (hsame : names = names' → edit.about ≠ edit'.about ∧
      (edit.inserts = false ∨ edit'.inserts = false)) :
    (x.rebuild? now edit names).bind (rebuild? now edit' names') =
      (x.rebuild? now edit' names').bind (rebuild? now edit names) := by
  induction names generalizing x names' with
  | nil =>
      obtain ⟨e, _ | cs⟩ := x
      · simp [rebuild?] at hsome
      · cases names' with
        | nil =>
            obtain ⟨hid, hone⟩ := hsame rfl
            rw [rebuild?, Option.isSome_map] at hsome hsome'
            have hcomm := Edit.run?_comm hid hone hsome hsome'
            have hcomm := congrArg (Option.map fun cs => mk { e with modified := now } (some cs)) hcomm
            simp only [rebuild?, Option.bind_map, Option.map_bind] at hcomm ⊢
            exact hcomm
        | cons name rest => exact rebuild?_comm_below (hspares name rest e cs rfl rfl) hsome'
  | cons first names ih =>
      obtain ⟨e, _ | cs⟩ := x
      · simp [rebuild?] at hsome
      · cases names' with
        | nil => exact (rebuild?_comm_below (hspares' first names e cs rfl rfl) hsome).symm
        | cons name rest =>
            rw [rebuild?, Option.isSome_map] at hsome hsome'
            suffices hcomm : (updateFirst? (·.name = first) (rebuild? now edit names) cs).bind
                  (updateFirst? (·.name = name) (rebuild? now edit' rest)) =
                (updateFirst? (·.name = name) (rebuild? now edit' rest) cs).bind
                  (updateFirst? (·.name = first) (rebuild? now edit names)) by
              have hcomm := congrArg (Option.map fun cs => mk e (some cs)) hcomm
              simp only [rebuild?, Option.bind_map, Option.map_bind] at hcomm ⊢
              exact hcomm
            by_cases heq : name = first
            · subst heq
              rw [updateFirst?_bind_self fun c c' h => by rw [name_rebuild? h],
                updateFirst?_bind_self fun c c' h => by rw [name_rebuild? h]]
              refine updateFirst?_congr fun c hc => ?_
              exact ih (isSome_of_updateFirst? hsome hc) (isSome_of_updateFirst? hsome' hc)
                (hspares.child hc) (hspares'.child hc) fun h => hsame (by rw [h])
            · refine updateFirst?_comm (fun c _ hc => ?_) (fun c _ c' hc h => ?_)
                fun c _ c' hc h => ?_
              · have hc : c.name = first := by simpa using hc
                simpa [hc] using Ne.symm heq
              · have hc : c.name = first := by simpa using hc
                simpa [name_rebuild? h, hc] using Ne.symm heq
              · have hc : c.name = name := by simpa using hc
                simpa [name_rebuild? h, hc] using heq

end Item

end DesktopShell

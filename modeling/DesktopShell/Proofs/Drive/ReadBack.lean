import DesktopShell.Proofs.Drive.Footprint

namespace DesktopShell

namespace Item

section Descend

variable {x x' p p' c c' new : Item} {name : String} {names way : List String} {e e' : Entry}
  {cs before after : List Item}

theorem descend_congr (h : x'.child? name = x.child? name) (rest : List String) :
    x'.descend (name :: rest) = x.descend (name :: rest) := by
  rw [descend, descend, h]

theorem descend_of_child? (h : x.child? name = some c) (rest : List String) :
    x.descend (name :: rest) = c.descend rest := by
  rw [descend, h]

theorem descend_of_no_child (h : x.child? name = none) (rest : List String) :
    x.descend (name :: rest) = none := by
  rw [descend, h]

theorem descend_eq_of_append (h : x.descend names = some p) (more : List String) :
    x.descend (names ++ more) = p.descend more := by
  refine Option.ext fun y => ?_
  rw [descend_append]
  constructor
  · rintro ⟨z, hz, hy⟩
    obtain rfl : p = z := Option.some.inj (h.symm.trans hz)
    exact hy
  · exact fun hy => ⟨p, h, hy⟩

theorem child?_leaf (h : x.children = []) (name : String) : x.child? name = none := by
  rw [child?, h]
  rfl

-- A child is looked for as if there were none of another name.
theorem child?_middle (e e' : Entry) (h : c.name ≠ name) :
    (mk e (some (before ++ c :: after))).child? name = (mk e' (some (before ++ after))).child? name := by
  show (before ++ c :: after).find? _ = (before ++ after).find? _
  rw [List.find?_append, List.find?_append, List.find?_cons_of_neg (by simpa using h)]

theorem child?_other (hname : c'.name = c.name) (h : c.name ≠ name) :
    (mk e' (some (before ++ c' :: after))).child? name =
      (mk e (some (before ++ c :: after))).child? name := by
  rw [child?_middle e e h, child?_middle e' e (hname ▸ h)]

theorem child?_append (e e' : Entry) (cs : List Item) (new : Item) (name : String) :
    (mk e (some (cs ++ [new]))).child? name =
      ((mk e' (some cs)).child? name).or (if new.name = name then some new else none) := by
  show (cs ++ [new]).find? _ = (cs.find? _).or _
  rw [List.find?_append]
  by_cases h : new.name = name <;> simp [h]

-- A way past the place of an exchange leads to what it led to before. Nothing has happened to that
-- if it lies beside the place, and if it lies above it is the same item with another child.
theorem Exchange.entry_descend (h : Exchange p p' names x x') (hname : p'.name = p.name)
    (hpast : ¬names <+: way) : (x'.descend way).map entry = (x.descend way).map entry := by
  induction h generalizing way with
  | here => exact absurd List.nil_prefix hpast
  | @inside name names e before after c c' first found inner ih =>
      have found' : c'.name = name := (inner.entry_eq (·.name) hname).trans found
      cases way with
      | nil => rfl
      | cons n rest =>
          by_cases hn : n = name
          · have hrest : ¬names <+: rest := fun h => hpast (List.cons_prefix_cons.mpr ⟨hn.symm, h⟩)
            rw [hn, descend_of_child? (child?_mk first found),
              descend_of_child? (child?_mk first found')]
            exact ih hrest
          · have hother : c.name ≠ n := fun hc => hn (hc.symm.trans found)
            rw [descend_congr (child?_other (found'.trans found.symm) hother)]

-- All depends on what a way leads to that goes on below the place.
theorem Exchange.id_descend (h : Exchange p p' names x x') (hname : p'.name = p.name)
    (hbelow : ∀ more, way = names ++ more → (p'.descend more).map id = (p.descend more).map id) :
    (x'.descend way).map id = (x.descend way).map id := by
  by_cases hway : names <+: way
  · obtain ⟨more, rfl⟩ := hway
    rw [descend_eq_of_append (h.descend_new hname), descend_eq_of_append h.descend]
    exact hbelow more rfl
  · have hentry := congrArg (Option.map (·.id)) (h.entry_descend hname hway)
    rwa [Option.map_map, Option.map_map] at hentry

end Descend

section Folder

variable {t new : Item} {e e' : Entry} {cs before after : List Item} {more : List String}
  {now : Moment} {content : String}

-- In the folder of a new item ways lead to what they led to before, but for the one that leads to the
-- new item if no other child has its name.
theorem id_descend_insert (hleaf : new.children = []) (hid : e'.id = e.id)
    (hother : more = [new.name] → ((mk e (some cs)).child? new.name).isSome = true) :
    ((mk e' (some (cs ++ [new]))).descend more).map id = ((mk e (some cs)).descend more).map id := by
  cases more with
  | nil => exact congrArg some hid
  | cons name rest =>
      have hchild := child?_append e' e cs new name
      cases hc : (mk e (some cs)).child? name with
      | some c =>
          rw [hc, Option.some_or] at hchild
          rw [descend_congr (hchild.trans hc.symm)]
      | none =>
          rw [hc, Option.none_or] at hchild
          split at hchild
          · next hname =>
              cases rest with
              | nil =>
                  rw [hname, hc] at hother
                  cases hother rfl
              | cons n rest =>
                  rw [descend_of_child? hchild, descend_of_no_child (child?_leaf hleaf n),
                    descend_of_no_child hc]
          · rw [descend_congr (hchild.trans hc.symm)]

theorem descend_new_child (h : (mk e (some cs)).child? new.name = none) :
    (mk e' (some (cs ++ [new]))).descend [new.name] = some new := by
  have hchild := child?_append e' e cs new new.name
  rw [h, Option.none_or, if_pos rfl] at hchild
  exact descend_of_child? hchild []

-- A rewritten file is found where it was.
theorem id_descend_rewrite (hfirst : ∀ y ∈ before, y.name ≠ t.name) (hleaf : t.children = [])
    (hid : e'.id = e.id) :
    ((mk e' (some (before ++ t.rewrite now content :: after))).descend more).map id =
      ((mk e (some (before ++ t :: after))).descend more).map id := by
  cases more with
  | nil => exact congrArg some hid
  | cons name rest =>
      by_cases hname : t.name = name
      · have hthere : (mk e (some (before ++ t :: after))).child? name = some t :=
          child?_mk (hname ▸ hfirst) hname
        have hthere' : (mk e' (some (before ++ t.rewrite now content :: after))).child? name =
            some (t.rewrite now content) :=
          child?_mk (hname ▸ hfirst) hname
        rw [descend_of_child? hthere, descend_of_child? hthere']
        cases rest with
        | nil => rfl
        | cons n rest =>
            have hnone : t.child? n = none := child?_leaf hleaf n
            have hnone' : (t.rewrite now content).child? n = none := child?_leaf hleaf n
            rw [descend_of_no_child hnone, descend_of_no_child hnone']
      · have hsame : (t.rewrite now content).name = t.name := rfl
        rw [descend_congr (child?_other hsame hname)]

-- Past an item that is removed ways lead to what they led to before.
theorem id_descend_remove (hid : e'.id = e.id) (hpast : ¬[t.name] <+: more) :
    ((mk e' (some (before ++ after))).descend more).map id =
      ((mk e (some (before ++ t :: after))).descend more).map id := by
  cases more with
  | nil => exact congrArg some hid
  | cons name rest =>
      have hname : t.name ≠ name := by
        rintro rfl
        exact hpast (List.prefix_append [t.name] rest)
      rw [descend_congr (child?_middle e e' hname).symm]

end Folder

-- A name under which a new item of a folder can be found: it can stand in a path, and no child has
-- it yet.
def Opens (folder : Item) (name : String) : Prop :=
  Path.IsName name ∧ folder.child? name = none

end Item

namespace Change

variable {root : Item} {stamp : Stamp} {plan : Plan}

-- What is found after a change, at any path and through whatever shortcuts. A new item is found at
-- all paths that lead to its name in its folder, if that is a name to be found by, and an updated
-- file has its new text at all paths at which it was found. At all other paths the same item is
-- found as before, or none if there was none, but for those that lead to or past a deleted item.
def ReadsBack (before after subject : Item) : Change → Prop
  | .create _ folder name => ∃ parent, before.find? folder = some parent ∧
      ∀ q, (parent.Opens name → Path.route q = Path.segments parent.path ++ [name] →
          after.find? q = some subject) ∧
        (¬(parent.Opens name ∧ Path.route q = Path.segments parent.path ++ [name]) →
          (after.find? q).map Item.id = (before.find? q).map Item.id)
  | .update path content => before.find? path = some subject ∧
      ∀ q, (after.find? q).map Item.id = (before.find? q).map Item.id ∧
        (before.find? q = some subject →
          (after.find? q).map (·.entry.content) = some (some content))
  | .delete path => before.find? path = some subject ∧
      ∀ q, ¬Path.route path <+: Path.route q →
        (after.find? q).map Item.id = (before.find? q).map Item.id

theorem readsBack_create (hr : root.Grounded) {what : NewItem} {folder name : String}
    (h : plan? root stamp (.create what folder name) = some plan) :
    (create what folder name).ReadsBack root plan.root plan.subject := by
  obtain ⟨e, cs, hfind, hsubject, hex⟩ := (plan?_create_iff hr).mp h
  have hname : plan.subject.name = name := by
    rw [hsubject]
    exact (path_make stamp what name _).2
  have hleaf : plan.subject.children = [] := by
    rw [hsubject]
    exact Item.children_make stamp what name _
  have hspelled := hr.segments_path hfind
  refine ⟨_, hfind, fun q => ⟨fun hopens hroute => ?_, fun hnot => ?_⟩⟩
  · rw [Item.find?, hroute, hspelled, Item.descend_eq_of_append (hex.descend_new rfl), ← hname]
    exact Item.descend_new_child (hname ▸ hopens.2)
  · refine hex.id_descend rfl fun more hmore => Item.id_descend_insert hleaf rfl fun hlast => ?_
    rw [hlast, hname] at hmore
    rw [hname, Option.isSome_iff_ne_none]
    intro hfree
    have hpart : Path.IsName name := by
      apply Path.isName_of_mem_route (p := q)
      rw [hmore]
      exact List.mem_append_right _ List.mem_cons_self
    exact hnot ⟨⟨hpart, hfree⟩, by rw [hmore, hspelled]⟩

theorem readsBack_update (hr : root.WellFormed) {path content : String}
    (h : plan? root stamp (.update path content) = some plan) :
    (update path content).ReadsBack root plan.root plan.subject := by
  obtain ⟨htarget, hfile, e, before, after, hfirst, hex⟩ := (plan?_update_iff hr).mp h
  have hfind := (Option.filter_eq_some_iff.mp htarget).1
  have hleaf := children_of_file hr.placed (Item.mem_walk_of_descend hfind) hfile
  refine ⟨hfind, fun q => ⟨?_, fun hq => ?_⟩⟩
  · exact hex.id_descend rfl fun more _ => Item.id_descend_rewrite hfirst hleaf rfl
  · -- All paths at which the file was found lead the same way.
    have hroute : Path.route q = Path.route path :=
      (hr.grounded.segments_path hq).symm.trans (hr.grounded.segments_path hfind)
    have hchild : (Item.mk (e.touch stamp.now)
        (some (before ++ plan.subject.rewrite stamp.now content :: after))).child?
          plan.subject.name = some (plan.subject.rewrite stamp.now content) :=
      Item.child?_mk hfirst rfl
    rw [Item.find?, hroute, hr.grounded.route_eq_concat htarget,
      Item.descend_eq_of_append (hex.descend_new rfl), Item.descend_of_child? hchild]
    rfl

theorem readsBack_delete (hr : root.WellFormed) {path : String}
    (h : plan? root stamp (.delete path) = some plan) :
    (delete path).ReadsBack root plan.root plan.subject := by
  obtain ⟨htarget, -, e, before, after, -, hex⟩ := (plan?_delete_iff hr).mp h
  refine ⟨(Option.filter_eq_some_iff.mp htarget).1, fun q hpast => ?_⟩
  refine hex.id_descend rfl fun more hmore => Item.id_descend_remove rfl fun hprefix => hpast ?_
  rw [hr.grounded.route_eq_concat htarget, hmore]
  exact (List.prefix_append_right_inj _).mpr hprefix

end Change

namespace Drive

-- What a change has done is read back at every path.
theorem readsBack_commit? {d : Drive} {change : Change} {now : Moment} {result : Committed}
    (hr : d.root.WellFormed) (h : d.commit? change now = some result) :
    change.ReadsBack d.root result.drive.root result.subject := by
  obtain ⟨plan, hplan, rfl⟩ := commit?_eq_some_iff.mp h
  cases change with
  | create what folder name => exact Change.readsBack_create hr.grounded hplan
  | update path content => exact Change.readsBack_update hr hplan
  | delete path => exact Change.readsBack_delete hr hplan

-- A text that is made through one shortcut is read through another one, and a text beside it stays
-- where it was.
theorem readsBack_commit?_desktop :
    (stock .epoch 1).root.WellFormed ∧ ∃ result,
      (stock .epoch 1).commit? (.create (.text "hi") "/Desktop" "a.txt") .epoch = some result ∧
        result.drive.root.find? "My Computer/C:/Users//Guest/Desktop/a.txt" = some result.subject ∧
        (result.drive.root.find? "/Desktop/readme.txt").map Item.id =
          ((stock .epoch 1).root.find? "/Desktop/readme.txt").map Item.id := by
  have hr := wellFormed_stock .epoch 1
  have hmade : ((stock .epoch 1).commit? (.create (.text "hi") "/Desktop" "a.txt")
      .epoch).isSome = true := by decide +kernel
  obtain ⟨result, hresult⟩ := Option.isSome_iff_exists.mp hmade
  obtain ⟨parent, hparent, hread⟩ := readsBack_commit? hr hresult
  have hfacts : ((stock .epoch 1).root.find? "/Desktop").map
      (fun x => (x.path, (x.child? "a.txt").isNone)) = some ("/C:/Users/Guest/Desktop", true) := by
    decide +kernel
  rw [hparent, Option.map_some] at hfacts
  obtain ⟨hpath, hfree⟩ := Prod.mk.inj (Option.some.inj hfacts)
  have hopens : parent.Opens "a.txt" := ⟨⟨by decide, by decide⟩, Option.isNone_iff_eq_none.mp hfree⟩
  refine ⟨hr, result, hresult, ?_, ?_⟩
  · refine (hread "My Computer/C:/Users//Guest/Desktop/a.txt").1 hopens ?_
    rw [hpath]
    decide +kernel
  · refine (hread "/Desktop/readme.txt").2 fun hsame => ?_
    rw [hpath] at hsame
    exact absurd hsame.2 (by decide +kernel)

end Drive

end DesktopShell

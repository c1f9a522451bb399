import DesktopShell.Proofs.Drive.Feasible
import DesktopShell.Proofs.Shell.Act
import DesktopShell.Proofs.Shell.Create
import DesktopShell.Proofs.Tree.Without

namespace DesktopShell

namespace Item

section

variable {root root' checked landed p p' x x' : Item} {name : String} {names : List String}

theorem eq_nil_of_descend_self (h : x.descend names = some x) : names = [] := by
  cases names with
  | nil => rfl
  | cons name names =>
      obtain ⟨c, hc, hx⟩ := descend_cons.mp h
      exact absurd (mem_walk_of_descend hx) (not_mem_walk_of_child (mem_children_of_child? hc))

-- Below the top an exchange leaves the names at the top alone.
theorem Exchange.map_name_children (h : Exchange p p' names x x') (hname : p'.name = p.name)
    (hne : names ≠ []) : x'.children.map Item.name = x.children.map Item.name := by
  cases h with
  | here => exact absurd rfl hne
  | @inside name names e before after c c' first found inner =>
      have hsame : c'.name = c.name := inner.entry_eq (·.name) hname
      show (before ++ c' :: after).map Item.name = (before ++ c :: after).map Item.name
      rw [List.map_append, List.map_append, List.map_cons, List.map_cons, hsame]

-- An item that is added shows in the names at the top exactly when it is added there.
theorem Added.map_name_children (h : Added root root' checked landed name) :
    root'.children.map Item.name =
      root.children.map Item.name ++ if Path.route checked.path = [] then [name] else [] := by
  obtain ⟨e, cs, now, new, names, rfl, rfl, -, hex⟩ := h.grown
  have hlanded : root.descend (Path.route checked.path) = some (.mk e (some cs)) := h.denoted
  split
  · next htop =>
      rw [htop] at hlanded
      obtain rfl : root = .mk e (some cs) := Option.some.inj hlanded
      obtain rfl := eq_nil_of_descend_self hex.descend
      cases hex
      exact List.map_append
  · next hbelow =>
      rw [List.append_nil]
      refine hex.map_name_children rfl ?_
      rintro rfl
      obtain rfl : root = .mk e (some cs) := Option.some.inj hex.descend
      exact hbelow (eq_nil_of_descend_self hlanded)

end

end Item

-- The names of what lies right at the top of the drive.
def Scene.topNames (scene : Scene) : List String :=
  scene.drive.root.children.map Item.name

namespace Alter

-- An operand that names a new item in a folder which is not spelled as the top of the drive, but is
-- spelled with the shortcut to the top alone, once or twice, so that this is where it leads.
structure SlipsToTop (call : Call) (scene : Scene) (target : String) : Prop where
  operand : call.line.firstArg? = some target
  spelled : Path.segments (Path.parent (scene.locate target)) = ["My Computer"] ∨
    Path.segments (Path.parent (scene.locate target)) = ["My Computer", "My Computer"]
  valid : isValidName (Path.fileName (scene.locate target)) = true
  free : ∃ checked, scene.drive.find? (Path.parent (scene.locate target)) = some checked ∧
    checked.isFolder = true ∧ checked.child? (Path.fileName (scene.locate target)) = none

variable {what : NewItem} {usage done : String} {call : Call} {scene : Scene} {target : String}

-- The folder that is found is looked up again by its own path, which follows shortcuts once more.
theorem route_path_eq_nil_iff (hr : scene.drive.root.Grounded) {checked : Item} {p : String}
    (hfind : scene.drive.find? p = some checked) (hbelow : Path.isRoot p = false) :
    Path.route checked.path = [] ↔
      Path.segments p = ["My Computer"] ∨ Path.segments p = ["My Computer", "My Computer"] := by
  have hne : Path.segments p ≠ [] := by
    rintro he
    rw [(Path.isRoot_iff p).mpr he] at hbelow
    cases hbelow
  rw [Path.route_eq, hr.segments_path hfind, Path.route_eq, Path.expand_eq_nil_iff,
    Path.expand_eq_nil_iff, Path.expand_eq_top_iff]
  simp only [hne, false_or]

theorem SlipsToTop.below (h : SlipsToTop call scene target) :
    Path.isRoot (scene.locate target) = false ∧
      Path.isRoot (Path.parent (scene.locate target)) = false := by
  have hne : Path.segments (Path.parent (scene.locate target)) ≠ [] := by
    rcases h.spelled with he | he <;> rw [he] <;> exact List.cons_ne_nil _ _
  refine ⟨?_, by simpa [Path.isRoot] using hne⟩
  rw [Path.segments_parent] at hne
  suffices hplace : Path.segments (scene.locate target) ≠ [] by simpa [Path.isRoot] using hplace
  intro hplace
  rw [hplace] at hne
  exact hne rfl

-- Nothing on the way stops an operand that leads to the top by such a detour.
theorem SlipsToTop.creates (h : SlipsToTop call scene target) (hr : scene.drive.root.WellFormed) :
    ∃ outcome, (create what usage done call scene).ending = .done outcome := by
  obtain ⟨hplace, hparent⟩ := h.below
  obtain ⟨checked, hfind, hfolder, hfree⟩ := h.free
  have hroute := (route_path_eq_nil_iff hr.grounded hfind hparent).mpr h.spelled
  have hfeasible : Change.Feasible scene.drive.root
      (.create what checked.path (Path.fileName (scene.locate target))) :=
    ⟨scene.drive.root, by rw [Item.find?, hroute]; rfl, hr.folder⟩
  have hcommit := (Drive.commit?_isSome_iff_feasible hr _ call.clock.now).1.mpr hfeasible
  obtain ⟨result, hresult⟩ := Option.isSome_iff_exists.mp hcommit
  simp [create, h.operand, hplace, hparent, h.valid, hfind, hfolder, hfree, Scene.commit?, hresult,
    Scene.done]

-- A folder that is spelled as the top is refused.
theorem parent_below_of_done {outcome : Outcome} (htarget : call.line.firstArg? = some target)
    (hdone : (create what usage done call scene).ending = .done outcome) :
    Path.isRoot (Path.parent (scene.locate target)) = false := by
  by_contra htop
  rw [Bool.not_eq_false] at htop
  simp [create, htarget, htop, Scene.fail] at hdone

-- What a `mkdir` or a `touch` adds to the names at the top.
theorem topNames_of_done (hr : scene.drive.root.Grounded) {outcome : Outcome}
    (hdone : (create what usage done call scene).ending = .done outcome) :
    ∃ target, call.line.firstArg? = some target ∧
      ((SlipsToTop call scene target ∧
          (create what usage done call scene).scene.topNames =
            scene.topNames ++ [Path.fileName (scene.locate target)]) ∨
        (¬SlipsToTop call scene target ∧
          (create what usage done call scene).scene.topNames = scene.topNames)) := by
  rcases create_cases what usage done call scene with ⟨failure, hfail⟩ |
    ⟨target, checked, item, scene', htarget, -, hvalid, hfind, hfolder, hfree, hcommit, hmade⟩
  · rw [hfail] at hdone
    cases hdone
  · have hroute := route_path_eq_nil_iff hr hfind (parent_below_of_done htarget hdone)
    obtain ⟨landed, hadded⟩ := added_commit? hr hfind hfree hcommit
    have hnames := hadded.map_name_children
    rw [hmade]
    refine ⟨target, htarget, ?_⟩
    split at hnames
    · next htop =>
        exact .inl ⟨⟨htarget, hroute.mp htop, hvalid, checked, hfind, hfolder, hfree⟩, hnames⟩
    · next htop =>
        rw [List.append_nil] at hnames
        exact .inr ⟨fun hslips => htop (hroute.mpr hslips.spelled), hnames⟩

-- Neither `mkdir` nor `touch` puts anything on the top of the drive, unless its operand leads there
-- by a detour. Then it always does, under the name that the operand ends with.
theorem topNames_create (hr : scene.drive.root.WellFormed) :
    ((create what usage done call scene).scene.topNames = scene.topNames ↔
        ∀ target, ¬SlipsToTop call scene target) ∧
      ∀ target, SlipsToTop call scene target →
        (create what usage done call scene).scene.topNames =
          scene.topNames ++ [Path.fileName (scene.locate target)] := by
  have hslips : ∀ target, SlipsToTop call scene target →
      (create what usage done call scene).scene.topNames =
        scene.topNames ++ [Path.fileName (scene.locate target)] := by
    intro target hslips
    obtain ⟨outcome, hdone⟩ : ∃ outcome, (create what usage done call scene).ending =
      .done outcome := hslips.creates hr
    obtain ⟨target', htarget', ⟨-, hnames⟩ | ⟨hnot, -⟩⟩ := topNames_of_done hr.grounded hdone
    · obtain rfl : target' = target := Option.some.inj (htarget'.symm.trans hslips.operand)
      exact hnames
    · obtain rfl : target' = target := Option.some.inj (htarget'.symm.trans hslips.operand)
      exact absurd hslips hnot
  refine ⟨⟨fun hsame target h => ?_, fun hnone => ?_⟩, hslips⟩
  · rw [hslips target h] at hsame
    simpa using congrArg List.length hsame
  · rcases create_cases what usage done call scene with ⟨failure, hfail⟩ | ⟨_, _, _, _, made⟩
    · rw [hfail]
      rfl
    · obtain ⟨-, -, -, -, -, -, -, hmade⟩ := made
      have hdone := congrArg Reply.ending hmade
      obtain ⟨target, -, ⟨hslips, -⟩ | ⟨-, hnames⟩⟩ := topNames_of_done hr.grounded hdone
      · exact absurd hslips (hnone target)
      · exact hnames

-- A line that is typed to a guest.
def typed (line : String) : Call :=
  ⟨.parse line, Registry.catalog Registry.builtin, ⟨.epoch, .epoch⟩⟩

-- Below a drive letter the top is out of reach, below the shortcut to the top it is not.
theorem topNames_create_shortcut :
    Scene.guest.drive.root.WellFormed ∧
      (makeFolder (typed "mkdir \"/My Computer/C:/x\"") Scene.guest).scene.topNames =
        Scene.guest.topNames ∧
      (makeFile (typed "touch \"//My Computer/My Computer//x\"") Scene.guest).scene.topNames =
        Scene.guest.topNames ++ ["x"] := by
  have hr : Scene.guest.drive.root.WellFormed := Drive.wellFormed_stock .epoch 1
  refine ⟨hr, (topNames_create hr).1.mpr fun target hslips => ?_,
    (topNames_create hr).2 "//My Computer/My Computer//x" ⟨by decide +kernel, by decide +kernel,
      by decide +kernel, Scene.guest.drive.root, rfl, rfl, by decide +kernel⟩⟩
  have hoperand : (typed "mkdir \"/My Computer/C:/x\"").line.firstArg? = some "/My Computer/C:/x" := by
    decide +kernel
  obtain rfl : "/My Computer/C:/x" = target := Option.some.inj (hoperand.symm.trans hslips.operand)
  have hspelled : Path.segments (Path.parent (Scene.guest.locate "/My Computer/C:/x")) = ["C:"] := by
    decide +kernel
  have hslipped := hslips.spelled
  rw [hspelled] at hslipped
  exact absurd hslipped (by decide)

theorem not_topNames_detour :
    Scene.guest.drive.root.WellFormed ∧
      (makeFolder (typed "mkdir \"/My Computer/My Computer/x\"") Scene.guest).scene.topNames ≠
        Scene.guest.topNames := by
  have hnames : (makeFolder (typed "mkdir \"/My Computer/My Computer/x\"")
      Scene.guest).scene.topNames = ["C:", "x"] := by
    decide +kernel
  have hbefore : Scene.guest.topNames = ["C:"] := by
    decide +kernel
  rw [hnames, hbefore]
  exact ⟨Drive.wellFormed_stock .epoch 1, by decide⟩

end Alter

end DesktopShell

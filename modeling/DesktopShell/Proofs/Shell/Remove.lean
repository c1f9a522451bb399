import DesktopShell.Proofs.Drive.Stock
import DesktopShell.Proofs.Shell.Effect
import DesktopShell.Proofs.Tree.Without

namespace DesktopShell

namespace Change

variable {root x y : Item} {p : String}

-- An item at a direct place is found again by its own path.
theorem target?_path (hr : root.Grounded) (hfind : root.find? p = some x)
    (htop : Path.isRoot x.path = false) (hdirect : Path.IsDirect (Path.segments x.path)) :
    target? root x.path = some x := by
  rw [target?, (hr.find?_path_iff hfind).mpr hdirect, Option.filter_some, if_pos (by simp [htop])]

-- At any other place another item is found, if any.
theorem target?_path_ne (hr : root.Grounded) (hfind : root.find? p = some x)
    (hdirect : ¬Path.IsDirect (Path.segments x.path)) (htarget : target? root x.path = some y) :
    y ≠ x := by
  rintro rfl
  exact hdirect ((hr.find?_path_iff hfind).mp (Option.filter_eq_some_iff.mp htarget).1)

end Change

namespace Alter

variable {call : Call} {scene : Scene} {target : String} {x y : Item}

theorem remove_missing (operand : call.line.firstArg? = some target)
    (hlookup : scene.lookup? target = none) :
    remove call scene = scene.fail (.notFound call.name target) := by
  unfold remove
  rw [operand]
  simp only [hlookup]

theorem remove_refused (operand : call.line.firstArg? = some target)
    (hlookup : scene.lookup? target = some x)
    (hrefused : (x.containsProtected || Path.isRoot x.path) = true) :
    remove call scene = scene.fail (.permissionDenied call.name target) := by
  unfold remove
  rw [operand]
  simp only [hlookup, if_pos hrefused]

theorem remove_vanished (operand : call.line.firstArg? = some target)
    (hlookup : scene.lookup? target = some x)
    (hallowed : (x.containsProtected || Path.isRoot x.path) = false)
    (hr : scene.drive.root.WellFormed)
    (hgone : (Change.target? scene.drive.root x.path).filter (!·.containsProtected) = none) :
    remove call scene = scene.fail (.notFound call.name target) := by
  have hcommit : scene.commit? (.delete x.path) call.clock.now = none := by
    rw [Scene.commit?, Drive.commit?_eq, Change.plan?_delete_eq hr, hgone]
    rfl
  unfold remove
  rw [operand]
  simp only [hlookup, hallowed, Bool.false_eq_true, if_false, hcommit]

theorem remove_deleted (operand : call.line.firstArg? = some target)
    (hlookup : scene.lookup? target = some x)
    (hallowed : (x.containsProtected || Path.isRoot x.path) = false)
    (hr : scene.drive.root.WellFormed)
    (hfound : (Change.target? scene.drive.root x.path).filter (!·.containsProtected) = some y) :
    ∃ scene' : Scene, remove call scene = scene'.done (.ofLine (.success ("Deleted: " ++ x.name))) ∧
      scene'.drive.root = scene.drive.root.without call.clock.now y.id := by
  obtain ⟨scene', hcommit, hroot⟩ : ∃ scene' : Scene,
      scene.commit? (.delete x.path) call.clock.now = some (y, scene') ∧
        scene'.drive.root = scene.drive.root.without call.clock.now y.id := by
    rw [Scene.commit?, Drive.commit?_eq, Change.plan?_delete_eq hr, hfound]
    exact ⟨_, rfl, rfl⟩
  refine ⟨scene', ?_, hroot⟩
  unfold remove
  rw [operand]
  simp only [hlookup, hallowed, Bool.false_eq_true, if_false, hcommit]

-- To remove exactly what the target denotes: to succeed when that is there and may go, to leave
-- everything else as it was except for the time of its folder, and to fail without a trace.
structure RemovesExactly (call : Call) (scene : Scene) (target : String) : Prop where
  succeeds : (∃ outcome, (remove call scene).ending = .done outcome) ↔
    ∃ x, scene.lookup? target = some x ∧ Path.isRoot x.path = false ∧ x.containsProtected = false
  removed : ∀ x outcome, scene.lookup? target = some x →
    (remove call scene).ending = .done outcome →
    (remove call scene).scene.drive.root = scene.drive.root.without call.clock.now x.id
  refused : (∀ outcome, (remove call scene).ending ≠ .done outcome) →
    (remove call scene).scene.drive.root = scene.drive.root

theorem removesExactly_of_failed {failure : Failure}
    (hfail : remove call scene = scene.fail failure)
    (hnone : ¬∃ x, scene.lookup? target = some x ∧ Path.isRoot x.path = false ∧
      x.containsProtected = false) : RemovesExactly call scene target := by
  constructor
  · refine iff_of_false ?_ hnone
    rintro ⟨outcome, hdone⟩
    rw [hfail] at hdone
    cases hdone
  · intro x outcome _ hdone
    rw [hfail] at hdone
    cases hdone
  · intro _
    rw [hfail]
    rfl

-- A target that another item answers to when it is looked up again.
theorem removed_indirect (operand : call.line.firstArg? = some target)
    (hr : scene.drive.root.WellFormed) (hlookup : scene.lookup? target = some x)
    (htop : Path.isRoot x.path = false) (hfree : x.containsProtected = false)
    (hindirect : ¬Path.IsDirect (Path.segments x.path)) :
    remove call scene = scene.fail (.notFound call.name target) ∨
      ∃ y ∈ scene.drive.root.walk, y ≠ x ∧ Path.isRoot y.path = false ∧
        ∃ scene' : Scene,
          remove call scene = scene'.done (.ofLine (.success ("Deleted: " ++ x.name))) ∧
          scene'.drive.root = scene.drive.root.without call.clock.now y.id := by
  have hallowed : (x.containsProtected || Path.isRoot x.path) = false := by rw [hfree, htop]; rfl
  cases hy : (Change.target? scene.drive.root x.path).filter (!·.containsProtected) with
  | none => exact .inl (remove_vanished operand hlookup hallowed hr hy)
  | some y =>
      obtain ⟨htarget, -⟩ := Option.filter_eq_some_iff.mp hy
      obtain ⟨hfind, hytop⟩ := Option.filter_eq_some_iff.mp htarget
      have hx : scene.drive.root.find? (scene.locate target) = some x := hlookup
      rw [Item.find?] at hfind
      refine .inr ⟨y, Item.mem_walk_of_descend hfind, ?_, by simpa using hytop, ?_⟩
      · exact Change.target?_path_ne hr.grounded hx hindirect htarget
      · exact remove_deleted operand hlookup hallowed hr hy

theorem not_removesExactly (operand : call.line.firstArg? = some target)
    (hr : scene.drive.root.WellFormed) (hlookup : scene.lookup? target = some x)
    (htop : Path.isRoot x.path = false) (hfree : x.containsProtected = false)
    (hindirect : ¬Path.IsDirect (Path.segments x.path)) : ¬RemovesExactly call scene target := by
  intro h
  -- Either nothing goes although `x` may, or another item than `x` goes.
  rcases removed_indirect operand hr hlookup htop hfree hindirect with
    hfail | ⟨y, hy, hne, hytop, scene', hdone, hroot⟩
  · obtain ⟨outcome, hdone⟩ := h.succeeds.mpr ⟨x, hlookup, htop, hfree⟩
    rw [hfail] at hdone
    cases hdone
  · have hnotRoot {z : Item} (hz : Path.isRoot z.path = false) : z ≠ scene.drive.root := by
      intro he
      rw [he, hr.top] at hz
      cases hz
    have hfind : scene.drive.root.descend (Path.route (scene.locate target)) = some x := hlookup
    have hx := Item.mem_walk_of_descend hfind
    have hsame := h.removed x _ hlookup (by rw [hdone]; rfl)
    rw [hdone] at hsame
    exact hr.without_ne call.clock.now hy hx (hnotRoot hytop) (hnotRoot htop) hne
      (hroot.symm.trans hsame)

theorem removesExactly_of_direct (operand : call.line.firstArg? = some target)
    (hr : scene.drive.root.WellFormed) (hlookup : scene.lookup? target = some x)
    (htop : Path.isRoot x.path = false) (hfree : x.containsProtected = false)
    (hdirect : Path.IsDirect (Path.segments x.path)) : RemovesExactly call scene target := by
  have hallowed : (x.containsProtected || Path.isRoot x.path) = false := by rw [hfree, htop]; rfl
  have hfind : scene.drive.root.find? (scene.locate target) = some x := hlookup
  have htarget := Change.target?_path hr.grounded hfind htop hdirect
  have hfound : (Change.target? scene.drive.root x.path).filter (!·.containsProtected) = some x := by
    rw [htarget, Option.filter_some, if_pos (by simp [hfree])]
  obtain ⟨scene', hdone, hroot⟩ := remove_deleted operand hlookup hallowed hr hfound
  have hending : (remove call scene).ending = .done (.ofLine (.success ("Deleted: " ++ x.name))) := by
    rw [hdone]
    rfl
  constructor
  · exact iff_of_true ⟨_, hending⟩ ⟨x, hlookup, htop, hfree⟩
  · intro x' outcome hlookup' _
    obtain rfl : x = x' := Option.some.inj (hlookup.symm.trans hlookup')
    rw [hdone]
    exact hroot
  · intro hfailed
    exact absurd hending (hfailed _)

-- On any tree that a snapshot may hold, a target is removed exactly unless it denotes an item
-- whose own path starts with a shortcut. Such an item stays. It is reported missing, or another
-- one is removed in its name.
theorem removesExactly_iff (accepted : Snapshot.flaw? scene.drive.root = none)
    (operand : call.line.firstArg? = some target) :
    (RemovesExactly call scene target ↔
      ∀ x, scene.lookup? target = some x → Path.isRoot x.path = false →
        x.containsProtected = false → Path.IsDirect (Path.segments x.path)) ∧
    ∀ x, scene.lookup? target = some x → Path.isRoot x.path = false → x.containsProtected = false →
      ¬Path.IsDirect (Path.segments x.path) →
        remove call scene = scene.fail (.notFound call.name target) ∨
          ∃ y ∈ scene.drive.root.walk, y ≠ x ∧ Path.isRoot y.path = false ∧
            ∃ scene' : Scene,
              remove call scene = scene'.done (.ofLine (.success ("Deleted: " ++ x.name))) ∧
              scene'.drive.root = scene.drive.root.without call.clock.now y.id := by
  have hr := (Snapshot.flaw?_eq_none_iff _).mp accepted
  refine ⟨⟨fun h x hlookup htop hfree => ?_, fun h => ?_⟩, fun x hlookup htop hfree =>
    removed_indirect operand hr hlookup htop hfree⟩
  · by_cases hdirect : Path.IsDirect (Path.segments x.path)
    · exact hdirect
    · exact absurd h (not_removesExactly operand hr hlookup htop hfree hdirect)
  · cases hlookup : scene.lookup? target with
    | none =>
        refine removesExactly_of_failed (remove_missing operand hlookup) ?_
        intro hexists
        obtain ⟨x, hx, -⟩ := hexists
        exact absurd (hlookup.symm.trans hx) (by simp)
    | some x =>
        cases hallowed : x.containsProtected || Path.isRoot x.path with
        | true =>
            refine removesExactly_of_failed (remove_refused operand hlookup hallowed) ?_
            intro hexists
            obtain ⟨x', hx', htop, hfree⟩ := hexists
            obtain rfl : x = x' := Option.some.inj (hlookup.symm.trans hx')
            rw [hfree, htop] at hallowed
            cases hallowed
        | false =>
            obtain ⟨hfree, htop⟩ := Bool.or_eq_false_iff.mp hallowed
            exact removesExactly_of_direct operand hr hlookup htop hfree (h x hlookup htop hfree)

-- A folder that is called like a shortcut, and a file of the same name inside and outside of it.
def namesakes : Scene :=
  ⟨.make .default,
    Layout.drive .epoch 1 [.folder "My Computer" .free [.text "a" .free "inside"], .text "a" .free ""],
    none, []⟩

def callWith (target : String) : Call :=
  ⟨⟨"rm " ++ target, ["rm", target], "rm", [target], .empty, false⟩, Registry.catalog Registry.builtin,
    ⟨.epoch, .epoch⟩⟩

theorem accepted_namesakes : Snapshot.flaw? namesakes.drive.root = none :=
  (Snapshot.flaw?_eq_none_iff _).mpr (Layout.wellFormed_drive .epoch 1 _ (by decide))

theorem removesExactly_iff_outside :
    Snapshot.flaw? namesakes.drive.root = none ∧ (callWith "/a").line.firstArg? = some "/a" ∧
      RemovesExactly (callWith "/a") namesakes "/a" := by
  refine ⟨accepted_namesakes, rfl, (removesExactly_iff accepted_namesakes rfl).1.mpr ?_⟩
  intro x hlookup _ _
  have hfact : (namesakes.lookup? "/a").map (·.path) = some "/a" := by decide
  rw [hlookup] at hfact
  have hpath : x.path = "/a" := Option.some.inj hfact
  rw [hpath]
  intro first hfirst
  obtain rfl : "a" = first := Option.some.inj hfirst
  decide

-- Asked for the file inside, `rm` removes the one outside.
theorem not_removesExactly_inside :
    Snapshot.flaw? namesakes.drive.root = none ∧
      ¬RemovesExactly (callWith "/My Computer/My Computer/My Computer/a") namesakes
        "/My Computer/My Computer/My Computer/a" := by
  have hr := (Snapshot.flaw?_eq_none_iff _).mp accepted_namesakes
  refine ⟨accepted_namesakes, ?_⟩
  have hfacts : (namesakes.lookup? "/My Computer/My Computer/My Computer/a").map
      (fun x => (x.path, x.containsProtected)) = some ("/My Computer/a", false) := by
    decide +kernel
  obtain ⟨x, hlookup, hx⟩ := Option.map_eq_some_iff.mp hfacts
  obtain ⟨hpath, hfree⟩ := Prod.mk.inj hx
  refine not_removesExactly rfl hr hlookup ?_ hfree ?_
  · rw [hpath]
    decide
  · rw [hpath]
    intro hdirect
    exact absurd (hdirect "My Computer" rfl) (by decide)

end Alter

end DesktopShell

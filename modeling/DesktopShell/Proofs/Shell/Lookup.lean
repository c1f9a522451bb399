import DesktopShell.Proofs.Drive.Stock
import DesktopShell.Proofs.Shell.Act

namespace DesktopShell

namespace Path

variable {parts parts' : List String}

-- Behind the shortcut to the top one more shortcut comes, which is first once the other has been
-- followed.
def Nested (parts : List String) : Prop :=
  ∃ rest, parts = "My Computer" :: rest ∧ ¬IsDirect rest

theorem expand_top (rest : List String) : expand ("My Computer" :: rest) = rest := rfl

theorem isDirect_cons_iff {first : String} {rest : List String} :
    IsDirect (first :: rest) ↔ shortcut? ("/" ++ first) = none :=
  ⟨fun h => h first rfl, fun h _ hfirst => Option.some.inj hfirst ▸ h⟩

-- Any other shortcut leads below a drive, and no shortcut is called after one.
theorem isDirect_expand {first : String} (h : first ≠ "My Computer") (rest : List String) :
    IsDirect (expand (first :: rest)) := by
  cases hs : shortcut? ("/" ++ first) with
  | none =>
      have hdirect : IsDirect (first :: rest) := isDirect_cons_iff.mpr hs
      rwa [expand_of_isDirect hdirect]
  | some target =>
      have hall : ∀ m ∈ shortcuts, ∀ s ∈ (segments m.2).head?, shortcut? ("/" ++ s) = none := by
        decide +kernel
      have htarget := hall _ (mem_shortcuts hs)
      have hexpand : expand (first :: rest) = segments target ++ rest := by rw [expand, hs]
      rw [hexpand]
      cases hsegments : segments target with
      | nil => exact absurd (eq_of_shortcut?_top hs hsegments) h
      | cons s more =>
          rw [hsegments] at htarget
          exact isDirect_cons_iff.mpr (htarget s rfl)

theorem isDirect_expand_iff : IsDirect (expand parts) ↔ ¬Nested parts := by
  cases parts with
  | nil =>
      refine iff_of_true (fun _ h => by cases h) ?_
      rintro ⟨rest, h, -⟩
      cases h
  | cons first rest =>
      by_cases htop : first = "My Computer"
      · rw [htop, expand_top]
        constructor
        · rintro hdirect ⟨rest', h, hnot⟩
          obtain ⟨-, rfl⟩ := List.cons.inj h
          exact hnot hdirect
        · exact fun h => by_contra fun hnot => h ⟨rest, rfl, hnot⟩
      · refine iff_of_true (isDirect_expand htop rest) ?_
        rintro ⟨rest', h, -⟩
        exact htop (List.cons.inj h).1

-- Whether shortcuts are followed once or twice makes a difference just for nested ones.
theorem expand_expand_iff : expand (expand parts) = expand parts ↔ ¬Nested parts := by
  rw [← isDirect_expand_iff]
  exact ⟨fun h => by_contra fun hnot => expand_ne hnot h, expand_of_isDirect⟩

theorem isName_of_mem_expand (hn : ∀ s ∈ parts, IsName s) : ∀ s ∈ expand parts, IsName s := by
  rw [← segments_followShortcut hn]
  exact fun _ => isName_of_mem_segments

theorem render_inj (hn : ∀ s ∈ parts, IsName s) (hn' : ∀ s ∈ parts', IsName s) :
    render parts = render parts' ↔ parts = parts' := by
  refine ⟨fun h => ?_, congrArg render⟩
  rw [← segments_render hn, h, segments_render hn']

theorem locate_eq_render (current target : String) :
    locate current target = render (expand (segments (resolve current target))) := by
  rw [← segments_locate]
  exact congrArg render (segments_normalize _).symm

theorem normalize_followShortcut_locate_iff (current target : String) :
    normalize (followShortcut (locate current target)) = locate current target ↔
      ¬Nested (segments (resolve current target)) := by
  have hn : ∀ s ∈ expand (segments (resolve current target)), IsName s :=
    isName_of_mem_expand fun _ => isName_of_mem_segments
  rw [locate_eq_render, normalize, segments_followShortcut hn,
    render_inj (isName_of_mem_expand hn) hn, expand_expand_iff]

end Path

namespace Layout

-- One folder inside another, called as the names say.
def chain : List String → List Layout
  | [] => []
  | name :: rest => [.folder name .free (chain rest)]

theorem exists_descend_chain (names : List String) (e : Entry) (path : String) (next : ItemId) :
    ∃ x, (Item.mk e (some (buildAll .epoch path next (chain names)).1)).descend names = some x := by
  induction names generalizing e path next with
  | nil => exact ⟨_, rfl⟩
  | cons name rest ih =>
      let place := Path.join path name
      let inner := Item.mk (Item.folder ⟨next, .epoch⟩ name place).entry
        (some (buildAll .epoch place (next + 1) (chain rest)).1)
      obtain ⟨x, hx⟩ := ih inner.entry place (next + 1)
      have hinner : (Item.mk e (some [inner])).child? name = some inner :=
        List.find?_cons_of_pos (decide_eq_true rfl)
      exact ⟨x, Item.descend_cons.mpr ⟨inner, hinner, hx⟩⟩

theorem grounded_drive (now : Moment) (next : ItemId) (ls : List Layout) :
    (drive now next ls).root.Grounded :=
  ⟨rfl, (Path.isRoot_iff _).mpr Path.segments_slash,
    Item.placed_folder_iff.mpr ⟨rfl, (built_buildAll now "/" (next + 1) ls).placed⟩⟩

end Layout

namespace Scene

variable {scene : Scene} {target : String}

theorem lookup?_eq_descend (scene : Scene) (target : String) :
    scene.lookup? target =
      scene.drive.root.descend
        (Path.expand (Path.expand (Path.segments (Path.resolve scene.session.path target)))) := by
  rw [lookup?, locate, Drive.find?, Item.find?, Path.route_eq, Path.segments_locate]

theorem find?_resolve_eq_descend (scene : Scene) (target : String) :
    scene.drive.find? (Path.resolve scene.session.path target) =
      scene.drive.root.descend
        (Path.expand (Path.segments (Path.resolve scene.session.path target))) := by
  rw [Drive.find?, Item.find?, Path.route_eq]

-- On a tree where paths lead where they say no item is found both ways by a nested path.
theorem lookup?_eq_none_of_nested (hr : scene.drive.root.Grounded)
    (hnested : Path.Nested (Path.segments (Path.resolve scene.session.path target)))
    (hsame : scene.lookup? target = scene.drive.find? (Path.resolve scene.session.path target)) :
    scene.lookup? target = none := by
  rw [Option.eq_none_iff_forall_ne_some]
  intro x hx
  have htwice : scene.drive.root.find? (scene.locate target) = some x := hx
  have hdirect : scene.drive.root.find? (Path.resolve scene.session.path target) = some x :=
    hsame.symm.trans hx
  have htwice := hr.segments_path htwice
  have hdirect := hr.segments_path hdirect
  rw [Path.route_eq] at hdirect htwice
  rw [locate, Path.segments_locate, hdirect] at htwice
  exact Path.expand_expand_iff.mp htwice.symm hnested

-- A session at a path, on a drive that holds just the folders that the names lead to.
def among (names : List String) (current : String) : Scene :=
  ⟨{ Session.make .default with path := current }, Layout.drive .epoch 1 (Layout.chain names), none,
    []⟩

-- There is a drive for each nested path on which it leads somewhere else when shortcuts are followed
-- twice.
theorem exists_lookup?_ne {current target : String}
    (hnested : Path.Nested (Path.segments (Path.resolve current target))) :
    ∃ scene : Scene, scene.session.path = current ∧
      scene.lookup? target ≠ scene.drive.find? (Path.resolve current target) := by
  let once := Path.expand (Path.segments (Path.resolve current target))
  refine ⟨among once current, rfl, fun hsame => ?_⟩
  have hr : (among once current).drive.root.Grounded := Layout.grounded_drive _ _ _
  obtain ⟨x, hx⟩ := Layout.exists_descend_chain once (Item.root ⟨1, .epoch⟩).entry "/" (1 + 1)
  have hfound : (among once current).drive.find? (Path.resolve current target) = some x :=
    (find?_resolve_eq_descend (among once current) target).trans hx
  have hnone := lookup?_eq_none_of_nested hr hnested hsame
  rw [hsame, hfound] at hnone
  cases hnone

-- A resolved path stays the same when its shortcuts are followed once more, and leads commands to
-- the item that is found at the absolute path on every drive, exactly unless the path is nested.
-- By a nested path no drive with its items in their places has one item found both ways.
theorem lookup?_eq_find?_iff (current target : String) :
    (Path.normalize (Path.followShortcut (Path.locate current target)) = Path.locate current target ↔
      ¬Path.Nested (Path.segments (Path.resolve current target))) ∧
    ((∀ scene : Scene, scene.session.path = current →
        scene.lookup? target = scene.drive.find? (Path.resolve current target)) ↔
      ¬Path.Nested (Path.segments (Path.resolve current target))) ∧
    (Path.Nested (Path.segments (Path.resolve current target)) →
      ∀ scene : Scene, scene.session.path = current → scene.drive.root.Grounded →
        scene.lookup? target = scene.drive.find? (Path.resolve current target) →
        scene.lookup? target = none) := by
  refine ⟨Path.normalize_followShortcut_locate_iff current target, ⟨fun hall hnested => ?_, ?_⟩, ?_⟩
  · obtain ⟨scene, hpath, hne⟩ := exists_lookup?_ne hnested
    exact hne (hall scene hpath)
  · rintro hnested scene rfl
    rw [lookup?_eq_descend, find?_resolve_eq_descend, Path.expand_expand_iff.mpr hnested]
  · rintro hnested scene rfl hr
    exact lookup?_eq_none_of_nested hr hnested

-- The folder of a guest's desktop is found by commands, through two shortcuts, but not at the path
-- itself.
theorem not_lookup?_eq_find?_desktop :
    Path.normalize (Path.followShortcut (Path.locate "/C:/Users/Guest" "/My Computer/Desktop")) ≠
        Path.locate "/C:/Users/Guest" "/My Computer/Desktop" ∧
      guest.lookup? "/My Computer/Desktop" ≠
        guest.drive.find? (Path.resolve guest.session.path "/My Computer/Desktop") := by
  refine ⟨by decide +kernel, fun hsame => ?_⟩
  have hlookup : (guest.lookup? "/My Computer/Desktop").map (·.path) =
      some "/C:/Users/Guest/Desktop" := by
    decide +kernel
  have hfind : (guest.drive.find? (Path.resolve guest.session.path "/My Computer/Desktop")).map
      (·.path) = none := by
    decide +kernel
  rw [hsame, hfind] at hlookup
  cases hlookup

end Scene

end DesktopShell

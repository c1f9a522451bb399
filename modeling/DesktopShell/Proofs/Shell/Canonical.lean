import DesktopShell.Proofs.Drive.Stock
import DesktopShell.Proofs.Path.Canonical
import DesktopShell.Proofs.Shell.Mainframe

namespace DesktopShell

-- What whoever embeds a session can do to it besides: put it somewhere, switch its mode, keep a
-- value in it or drop one, and take it to the mainframe and back.
inductive Control
  | act (act : Act)
  | setPath (path : String)
  | setMode (mode : Mode)
  | setValue (key value : String)
  | eraseValue (key : String)
  | enterHack (address : String)
  | exitHack

namespace Stand

-- What a command can do to the path of a session and to the way back: nothing, go somewhere, go to
-- the mainframe, or take up the path that is remembered.
inductive Journey (a b : Stand) : Prop
  | stays (mode : b.mode = a.mode) (path : b.path = a.path) (way : b.way = a.way)
  | goes (mode : b.mode = a.mode) (path : Path.IsCanonical b.path) (way : b.way = a.way)
  | leaves (there : b.mode = .hack) (path : Path.IsCanonical b.path) (way : b.way = some a.path)
  | returns (away : a.mode = .hack) (home : b.mode = .normal) (path : b.path = a.way.getD a.path)
      (way : b.way = none)

end Stand

theorem Session.path_exitHack (s : Session) :
    s.exitHack.2.path = (s.value? returnPathKey).getD s.path := by
  unfold exitHack
  cases s.value? returnPathKey <;> rfl

theorem Handler.Does.journey {call : Call} {scene : Scene} {reply : Reply}
    (h : Handler.Does call scene reply) : scene.stand.Journey reply.scene.stand := by
  unfold Scene.stand
  rcases h.session_cases with hsame | ⟨path, hpath⟩ | ⟨-, hthere⟩ | ⟨haway, hhome⟩
  · rw [hsame]
    exact .stays rfl rfl rfl
  · rw [hpath]
    exact .goes rfl (Path.isCanonical_normalize path) rfl
  · rw [hthere]
    exact .leaves rfl (Path.isCanonical_normalize Mainframe.address)
      (scene.session.value?_enterHack Mainframe.address)
  · rw [hhome]
    obtain ⟨home, way⟩ := scene.session.exitHack_home
    exact .returns haway home scene.session.path_exitHack way

namespace Scene

open Session (returnPathKey)

def control (s : Scene) : Control → Scene
  | .act act => s.perform act
  | .setPath path => s.mapSession (·.setPath path)
  | .setMode mode => s.mapSession (·.setMode mode)
  | .setValue key value => s.mapSession (·.setValue key value)
  | .eraseValue key => s.mapSession (·.eraseValue key)
  | .enterHack address => s.mapSession (·.enterHack address)
  | .exitHack => s.mapSession (·.exitHack.2)

def controlAll (s : Scene) (controls : List Control) : Scene :=
  controls.foldl control s

theorem controlAll_snoc (s : Scene) (controls : List Control) (c : Control) :
    s.controlAll (controls ++ [c]) = (s.controlAll controls).control c := by
  unfold controlAll
  rw [List.foldl_append]
  rfl

-- The path that a session takes up when this brings it back from the mainframe: a line does if the
-- session is at home behind it.
def homecoming? (s : Scene) : Control → Option String
  | .exitHack => s.session.value? returnPathKey
  | .act act =>
      if act.isLine = true ∧ s.session.mode = .hack ∧ (s.perform act).session.mode = .normal then
        s.session.value? returnPathKey
      else none
  | _ => none

theorem journey_line (s : Scene) {act : Act} (hline : act.isLine = true) :
    s.stand.Journey (s.perform act).stand := by
  have hsame (a : Stand) : a.Journey a := .stays rfl rfl rfl
  have hcall : ∀ command ∈ Registry.builtin, ∀ (call : Call) (scene : Scene),
      scene.stand.Journey (command.handler call scene).scene.stand :=
    fun command hcommand call scene => (Handler.does_builtin command hcommand call scene).journey
  cases act with
  | submit submission => exact receive_related blind_stand hsame hcall s submission
  | execute line clock => exact s.execute_related stand hsame hcall clock line
  | reset | others => cases hline

-- The path of a session stays as it is or becomes canonical, unless the session comes back.
theorem path_control (s : Scene) (c : Control) :
    (s.control c).session.path = s.session.path ∨ Path.IsCanonical (s.control c).session.path ∨
      s.homecoming? c = some (s.control c).session.path := by
  have hback {path : String} (hpath : path = (s.session.value? returnPathKey).getD s.session.path) :
      path = s.session.path ∨ s.session.value? returnPathKey = some path := by
    cases hway : s.session.value? returnPathKey with
    | none => exact .inl (by simpa [hway] using hpath)
    | some way => exact .inr (by simpa [hway] using hpath.symm)
  cases c with
  | act act =>
      by_cases hline : act.isLine = true
      · cases s.journey_line hline with
        | stays mode path way => exact .inl path
        | goes mode path way => exact .inr (.inl path)
        | leaves there path way => exact .inr (.inl path)
        | returns away home path way =>
            refine (hback path).imp_right fun hway => .inr ?_
            exact (if_pos ⟨hline, away, home⟩).trans hway
      · cases act with
        | submit | execute => exact absurd rfl hline
        | reset => exact .inr (.inl (Path.isCanonical_normalize _))
        | others => exact .inl rfl
  | setPath path => exact .inr (.inl (Path.isCanonical_normalize path))
  | enterHack address => exact .inr (.inl (Path.isCanonical_normalize address))
  | exitHack => exact (hback s.session.path_exitHack).imp_right .inr
  | setMode | setValue | eraseValue => exact .inl rfl

theorem way_of_homecoming {s : Scene} {c : Control} {path : String}
    (h : s.homecoming? c = some path) : s.session.value? returnPathKey = some path := by
  cases c with
  | act act => exact (Option.ite_none_right_eq_some.mp h).2
  | exitHack => exact h
  | setPath | setMode | setValue | eraseValue | enterHack => cases h

-- And if it does, the path is the one that was remembered.
theorem path_of_homecoming {s : Scene} {c : Control} {path : String}
    (h : s.homecoming? c = some path) : (s.control c).session.path = path := by
  have hway := congrArg (·.getD s.session.path) (way_of_homecoming h)
  cases c with
  | act act =>
      obtain ⟨⟨hline, haway, hhome⟩, -⟩ := Option.ite_none_right_eq_some.mp h
      have hback (mode : (s.perform act).session.mode = s.session.mode) : False := by
        rw [hhome, haway] at mode
        cases mode
      cases s.journey_line hline with
      | stays mode => exact (hback mode).elim
      | goes mode => exact (hback mode).elim
      | leaves there =>
          have hthere : (s.perform act).session.mode = .hack := there
          rw [hhome] at hthere
          cases hthere
      | returns away home path => exact path.trans hway
  | exitHack => exact s.session.path_exitHack.trans hway
  | setPath | setMode | setValue | eraseValue | enterHack => cases h

-- What a session remembers as the way back it has remembered before, or it is the path that it just
-- left, or someone has put it there.
theorem way_control (s : Scene) (c : Control) {path : String}
    (h : (s.control c).session.value? returnPathKey = some path) :
    s.session.value? returnPathKey = some path ∨ path = s.session.path ∨
      c = .setValue returnPathKey path := by
  cases c with
  | act act =>
      by_cases hline : act.isLine = true
      · cases s.journey_line hline with
        | stays mode same way => exact .inl (way.symm.trans h)
        | goes mode same way => exact .inl (way.symm.trans h)
        | leaves there same way => exact .inr (.inl (Option.some.inj (h.symm.trans way)))
        | returns away home same way => cases h.symm.trans way
      · cases act with
        | submit | execute => exact absurd rfl hline
        | reset => cases h
        | others => exact .inl h
  | setPath | setMode => exact .inl h
  | setValue key value =>
      have hset : (if returnPathKey = key then some value else s.session.value? returnPathKey) =
          some path := (Table.get?_set _ _ _ _).symm.trans h
      split at hset
      · next hkey =>
          cases hset
          exact .inr (.inr (by rw [hkey]))
      · exact .inl hset
  | eraseValue key =>
      have herase : (if returnPathKey = key then none else s.session.value? returnPathKey) =
          some path := (Table.get?_erase _ _ _).symm.trans h
      split at herase
      · cases herase
      · exact .inl herase
  | enterHack address =>
      exact .inr (.inl (Option.some.inj (h.symm.trans (s.session.value?_enterHack address))))
  | exitHack => cases h.symm.trans s.session.exitHack_home.2

section Run

variable {start : Scene} (hstart : Path.IsCanonical start.session.path) {controls : List Control}

include hstart

theorem isCanonical_of_homecomings
    (h : ∀ front c path, front ++ [c] <+: controls →
      (start.controlAll front).homecoming? c = some path → Path.IsCanonical path) :
    ∀ front, front <+: controls → Path.IsCanonical (start.controlAll front).session.path := by
  intro front hfront
  induction front using List.reverseRecOn with
  | nil => exact hstart
  | append_singleton front c ih =>
      rw [controlAll_snoc]
      rcases (start.controlAll front).path_control c with hsame | hcanonical | hhome
      · rw [hsame]
        exact ih ((List.prefix_append front [c]).trans hfront)
      · exact hcanonical
      · exact h front c _ hfront hhome

-- As long as only canonical paths are put there, the way back is canonical, and so is where the
-- session is.
theorem isCanonical_of_values (hway : start.session.value? returnPathKey = none)
    (h : ∀ path, .setValue returnPathKey path ∈ controls → Path.IsCanonical path) :
    Path.IsCanonical (start.controlAll controls).session.path ∧
      ∀ path, (start.controlAll controls).session.value? returnPathKey = some path →
        Path.IsCanonical path := by
  induction controls using List.reverseRecOn with
  | nil => exact ⟨hstart, fun path hpath => by cases hway.symm.trans hpath⟩
  | append_singleton controls c ih =>
      obtain ⟨ihpath, ihway⟩ := ih fun path hpath => h path (List.mem_append_left _ hpath)
      rw [controlAll_snoc]
      constructor
      · rcases (start.controlAll controls).path_control c with hsame | hcanonical | hhome
        · rwa [hsame]
        · exact hcanonical
        · exact ihway _ (way_of_homecoming hhome)
      · intro path hpath
        rcases (start.controlAll controls).way_control c hpath with hsame | rfl | rfl
        · exact ihway path hsame
        · exact ihpath
        · exact h path (by simp)

end Run

-- However a session is used, its path is canonical all the time exactly if every path that it takes
-- up on its way back from the mainframe is. That can only fail where someone else than the session
-- has written the way back.
theorem isCanonical_controlAll (settings : Settings) (drive : Drive) (windows : Option Nat)
    (controls : List Control) :
    let start : Scene := ⟨.make settings, drive, windows, []⟩
    ((∀ front, front <+: controls → Path.IsCanonical (start.controlAll front).session.path) ↔
        ∀ front c path, front ++ [c] <+: controls →
          (start.controlAll front).homecoming? c = some path → Path.IsCanonical path) ∧
      ((∀ path, .setValue returnPathKey path ∈ controls → Path.IsCanonical path) →
        ∀ front, front <+: controls → Path.IsCanonical (start.controlAll front).session.path) := by
  intro start
  have hstart : Path.IsCanonical start.session.path := Path.isCanonical_normalize settings.homePath
  refine ⟨⟨?_, isCanonical_of_homecomings hstart⟩, ?_⟩
  · intro h front c path hfront hhome
    have hpath := h (front ++ [c]) hfront
    rwa [controlAll_snoc, path_of_homecoming hhome] at hpath
  · intro h front hfront
    exact (isCanonical_of_values hstart rfl fun path hpath =>
      h path (hfront.subset hpath)).1

-- Somebody helps a guest home from the mainframe to another folder.
def rescue : List Control :=
  [ .setPath "C://Users/", .enterHack "//mainframe//", .setMode .normal, .setMode .hack,
    .setValue returnPathKey "/C:/Windows", .act (.submit ⟨"hack exit", ⟨.epoch, .epoch⟩, none⟩) ]

theorem isCanonical_controlAll_rescue :
    (∀ path, .setValue returnPathKey path ∈ rescue → Path.IsCanonical path) ∧
      (∀ front, front <+: rescue → Path.IsCanonical (guest.controlAll front).session.path) ∧
      (guest.controlAll rescue).session.path = "/C:/Windows" := by
  have hvalues : ∀ path, .setValue returnPathKey path ∈ rescue → Path.IsCanonical path := by
    intro path hpath
    obtain rfl : path = "/C:/Windows" := by simpa [rescue] using hpath
    exact (by decide +kernel : Path.normalize "/C:/Windows" = "/C:/Windows") ▸
      Path.isCanonical_normalize "/C:/Windows"
  exact ⟨hvalues, (isCanonical_controlAll .default (.stock .epoch 1) (some 0) rescue).2 hvalues,
    by decide +kernel⟩

-- What is written there in another spelling is taken up as it is written.
theorem not_isCanonical_astray :
    guest.drive.root.WellFormed ∧
      ¬Path.IsCanonical (guest.controlAll
        [.setValue returnPathKey "C://x/", .exitHack]).session.path := by
  refine ⟨Drive.wellFormed_stock .epoch 1, fun h => ?_⟩
  have hpath : (guest.controlAll [.setValue returnPathKey "C://x/", .exitHack]).session.path =
    "C://x/" := by decide +kernel
  rw [hpath] at h
  exact absurd h.leading (by decide)

end Scene

end DesktopShell

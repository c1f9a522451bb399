import DesktopShell.Proofs.Drive.Alike
import DesktopShell.Proofs.Shell.Echo
import DesktopShell.Shell.Inform

namespace DesktopShell

-- Sessions between which no command makes a difference, but for the lines they remember.
structure Session.Alike (s s' : Session) : Prop where
  path : s'.path = s.path
  mode : s'.mode = s.mode
  values : s'.values = s.values
  user : s'.settings.user = s.settings.user

namespace Session.Alike

variable {s s' : Session}

theorem setPath (h : s.Alike s') (path : String) : (s.setPath path).Alike (s'.setPath path) :=
  ⟨rfl, h.mode, h.values, h.user⟩

theorem value?_eq (h : s.Alike s') (key : String) : s'.value? key = s.value? key := by
  rw [value?, value?, h.values]

theorem enterHack (h : s.Alike s') (address : String) :
    (s.enterHack address).Alike (s'.enterHack address) := by
  refine ⟨rfl, rfl, ?_, h.user⟩
  show s'.values.set returnPathKey s'.path = s.values.set returnPathKey s.path
  rw [h.values, h.path]

theorem exitHack (h : s.Alike s') : s.exitHack.2.Alike s'.exitHack.2 := by
  unfold Session.exitHack
  rw [h.value?_eq]
  cases s.value? returnPathKey with
  | some path =>
      refine ⟨rfl, rfl, ?_, h.user⟩
      show s'.values.erase returnPathKey = s.values.erase returnPathKey
      rw [h.values]
  | none => exact ⟨h.path, rfl, h.values, h.user⟩

end Session.Alike

-- Lines that are the same, or show times that correspond.
def Line.Alike (T : Reading → Reading → Prop) (l l' : Line) : Prop :=
  l' = l ∨ ∃ r r', T r r' ∧ l = .text (Inform.dateText r) ∧ l' = .text (Inform.dateText r')

-- Outcomes that ask for the same, however fast.
structure Outcome.Alike (T : Reading → Reading → Prop) (o o' : Outcome) : Prop where
  lines : List.Forall₂ (Line.Alike T) o.lines o'.lines
  clear : o'.clear = o.clear
  effect : o'.effect = o.effect

theorem Outcome.Alike.refl {T : Reading → Reading → Prop} (o : Outcome) : o.Alike T o :=
  ⟨List.forall₂_same.mpr fun _ _ => .inl rfl, rfl, rfl⟩

theorem Outcome.alike_ofLine {T : Reading → Reading → Prop} {l l' : Line} (h : l.Alike T l') :
    (Outcome.ofLine l).Alike T (Outcome.ofLine l') :=
  ⟨.cons h .nil, rfl, rfl⟩

-- Ends of calls that are alike, as far as outcomes do not depend on what `remembered` says.
inductive Ending.Alike (T : Reading → Reading → Prop) (remembered : Prop) : Ending → Ending → Prop
  | done {o o' : Outcome} (outcome : remembered → o.Alike T o') :
      Alike T remembered (.done o) (.done o')
  | failed (failure : Failure) : Alike T remembered (.failed failure) (.failed failure)
  | crashed : Alike T remembered .crashed .crashed

namespace Scene

-- Scenes between which no command makes a difference, but for the lines that are remembered, for
-- times, and for numbers of items.
structure Alike (σ : Equiv.Perm ItemId) (s s' : Scene) : Prop where
  session : s.session.Alike s'.session
  drive : s.drive.Alike σ s'.drive
  windows : s'.windows = s.windows

-- `t` comes of `s` like `t'` of `s'`: the two are still alike, the same has become noticeable, and
-- as many numbers have been given away.
structure Parallel (σ : Equiv.Perm ItemId) (s s' t t' : Scene) : Prop where
  alike : t.Alike σ t'
  log : ∃ new, t.log = s.log ++ new ∧ t'.log = s'.log ++ new
  next : s'.drive.nextId = s.drive.nextId → t'.drive.nextId = t.drive.nextId

end Scene

-- Replies to one call in two scenes.
structure Reply.Alike (T : Reading → Reading → Prop) (σ : Equiv.Perm ItemId) (s s' : Scene)
    (r r' : Reply) : Prop where
  scenes : s.Parallel σ s' r.scene r'.scene
  ending : r.ending.Alike T (s'.session.history = s.session.history) r'.ending

namespace Scene.Alike

variable {T : Reading → Reading → Prop} {σ : Equiv.Perm ItemId} {s s' : Scene} (h : s.Alike σ s')

include h

theorem parallel_self : s.Parallel σ s' s s' :=
  ⟨h, ⟨[], by simp, by simp⟩, id⟩

theorem fails (failure : Failure) : Reply.Alike T σ s s' (s.fail failure) (s'.fail failure) :=
  ⟨h.parallel_self, .failed failure⟩

theorem crashes : Reply.Alike T σ s s' ⟨s, .crashed⟩ ⟨s', .crashed⟩ :=
  ⟨h.parallel_self, .crashed⟩

theorem tells {o o' : Outcome}
    (ho : s'.session.history = s.session.history → o.Alike T o') :
    Reply.Alike T σ s s' (s.done o) (s'.done o') :=
  ⟨h.parallel_self, .done ho⟩

theorem tells_same (o : Outcome) : Reply.Alike T σ s s' (s.done o) (s'.done o) :=
  h.tells fun _ => .refl o

theorem goes {f f' : Session → Session} (hf : (f s.session).Alike (f' s'.session)) {o o' : Outcome}
    (ho : o.Alike T o') :
    Reply.Alike T σ s s' ((s.mapSession f).done o) ((s'.mapSession f').done o') :=
  ⟨⟨⟨hf, h.drive, h.windows⟩, ⟨[], by simp [done, mapSession], by simp [done, mapSession]⟩, id⟩,
    .done fun _ => ho⟩

theorem locate_eq (target : String) : s'.locate target = s.locate target := by
  rw [locate, locate, h.session.path]

theorem lookup?_cases (target : String) :
    (s.lookup? target = none ∧ s'.lookup? target = none) ∨
      ∃ x x', s.lookup? target = some x ∧ s'.lookup? target = some x' ∧ x.Alike σ x' := by
  rw [lookup?, lookup?, h.locate_eq]
  exact h.drive.root.find?_cases _

theorem commit?_cases (hnext : σ s.drive.nextId = s'.drive.nextId) (change : Change)
    (now now' : Moment) :
    (s.commit? change now = none ∧ s'.commit? change now' = none) ∨
      ∃ x x' t t', s.commit? change now = some (x, t) ∧ s'.commit? change now' = some (x', t') ∧
        x.Alike σ x' ∧ s.Parallel σ s' t t' := by
  unfold commit?
  rcases h.drive.commit?_cases hnext change now now' with ⟨hnone, hnone'⟩ |
    ⟨result, result', hsome, hsome', hsubject, hicon, hdrive, hsame⟩
  · exact .inl ⟨by rw [hnone]; rfl, by rw [hnone']; rfl⟩
  · rw [hsome, hsome']
    refine .inr ⟨_, _, _, _, rfl, rfl, hsubject, ⟨h.session, hdrive, h.windows⟩, ⟨_, rfl, ?_⟩, hsame⟩
    rw [hicon]

theorem open?_cases (window : Window) :
    (s.open? window = none ∧ s'.open? window = none) ∨
      ∃ id t t', s.open? window = some (id, t) ∧ s'.open? window = some (id, t') ∧
        s.Parallel σ s' t t' := by
  unfold open?
  rw [h.windows]
  cases s.windows with
  | none => exact .inl ⟨rfl, rfl⟩
  | some last =>
      exact .inr ⟨_, _, _, rfl, rfl, ⟨h.session, h.drive, rfl⟩, ⟨_, rfl, rfl⟩, id⟩

end Scene.Alike

theorem Scene.Parallel.does {T : Reading → Reading → Prop} {σ : Equiv.Perm ItemId} {s s' t t' : Scene}
    (h : s.Parallel σ s' t t') (o : Outcome) : Reply.Alike T σ s s' (t.done o) (t'.done o) :=
  ⟨h, .done fun _ => .refl o⟩

end DesktopShell

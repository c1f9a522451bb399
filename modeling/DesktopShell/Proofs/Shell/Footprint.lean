import DesktopShell.Proofs.Drive.Feasible
import DesktopShell.Proofs.Shell.Act
import DesktopShell.Proofs.Shell.Create

namespace DesktopShell

-- What an item keeps when a line is run that leaves it there: all but the time of its last change.
def Entry.Lasts (e e' : Entry) : Prop :=
  e' = { e with modified := e'.modified }

namespace Alter

-- What the name of a new item is like.
structure Acceptable (name : String) : Prop where
  filled : name ≠ ""
  notHere : name ≠ "."
  notAbove : name ≠ ".."
  clean : ∀ c ∈ forbidden, c ∉ name.toList

theorem acceptable_of_isValidName {name : String} (hname : Path.IsName name)
    (h : isValidName name = true) : Acceptable name := by
  simp only [isValidName, Bool.and_eq_true, decide_eq_true_eq, Bool.not_eq_true', List.any_eq_false,
    List.contains_iff_mem] at h
  exact ⟨hname.1, h.1.1, h.1.2, fun c hc hin => h.2 c hin hc⟩

end Alter

namespace Drive

-- All that a line can do to the tree of a drive, with what is new there and what is gone: nothing,
-- put one empty item behind the others in a folder, or take one item out of a folder with all that
-- is in it.
inductive LineEffect (d d' : Drive) : List Entry → List Entry → Prop
  | same (root : d'.root = d.root) : LineEffect d d' [] []
  | grown {e : Entry} {cs : List Item} {new : Item} {names : List String} {now : Moment}
      (number : new.id = d.nextId) (name : Alter.Acceptable new.name)
      (place : new.path = Path.join e.path new.name) (empty : new.children = [] ∧ new.size = 0)
      (free : new.entry.isProtected = false)
      (grows : Item.Exchange (.mk e (some cs)) (.mk (e.touch now) (some (cs ++ [new]))) names
        d.root d'.root) :
      LineEffect d d' [new.entry] []
  | shrunk {e : Entry} {before after : List Item} {t : Item} {names : List String} {now : Moment}
      (free : ∀ y ∈ t.walk, y.entry.isProtected = false)
      (shrinks : Item.Exchange (.mk e (some (before ++ t :: after)))
        (.mk (e.touch now) (some (before ++ after))) names d.root d'.root) :
      LineEffect d d' [] t.entries

-- The items of `root` without those that are gone are the items of `root'` without the new ones, and
-- each of them lasts.
def Outlasts (root root' : Item) (made gone : List Entry) : Prop :=
  ∃ kept kept', root.entries.Perm (kept ++ gone) ∧ root'.entries.Perm (kept' ++ made) ∧
    List.Forall₂ Entry.Lasts kept kept'

theorem forall₂_lasts_refl (es : List Entry) : List.Forall₂ Entry.Lasts es es :=
  List.forall₂_same.mpr fun _ _ => rfl

-- A folder whose children change is all there is to look at.
theorem outlasts_of_exchange {e : Entry} {now : Moment} {cs cs' : List Item} {names : List String}
    {root root' : Item} {made gone : List Entry} (kept : List Entry)
    (hex : Item.Exchange (.mk e (some cs)) (.mk (e.touch now) (some cs')) names root root')
    (hold : (cs.flatMap Item.entries).Perm (kept ++ gone))
    (hnew : (cs'.flatMap Item.entries).Perm (kept ++ made)) : Outlasts root root' made gone := by
  obtain ⟨front, back, hroot, hroot'⟩ := hex.entries
  have harrange (x : Entry) {l extra : List Entry} (h : l.Perm (kept ++ extra)) :
      (front ++ (x :: l) ++ back).Perm (front ++ x :: kept ++ back ++ extra) := by
    have hinner : (x :: l).Perm (x :: kept ++ extra) := h.cons x
    have hmoved := ((hinner.append_left front).append_right back)
    refine hmoved.trans ?_
    rw [← List.append_assoc front, List.append_assoc _ extra, List.append_assoc _ back]
    exact List.perm_append_comm.append_left _
  refine ⟨front ++ e :: kept ++ back, front ++ e.touch now :: kept ++ back, ?_, ?_, ?_⟩
  · rw [hroot, Item.entries_mk]
    exact harrange e hold
  · rw [hroot', Item.entries_mk]
    exact harrange (e.touch now) hnew
  · have htouch : e.Lasts (e.touch now) := rfl
    have hfront := forall₂_lasts_refl front
    exact List.rel_append (List.rel_append hfront (.cons htouch (forall₂_lasts_refl kept)))
      (forall₂_lasts_refl back)

theorem LineEffect.outlasts {d d' : Drive} {made gone : List Entry} (h : LineEffect d d' made gone) :
    Outlasts d.root d'.root made gone := by
  cases h with
  | same root =>
      rw [root]
      exact ⟨d.root.entries, d.root.entries, by simp, by simp, forall₂_lasts_refl _⟩
  | @grown e cs new names now number name place empty free grows =>
      refine outlasts_of_exchange (cs.flatMap Item.entries) grows (by simp) ?_
      have hleaf : new.entries = [new.entry] := by
        rw [Item.entries_eq, empty.1]
        rfl
      rw [List.flatMap_append, List.flatMap_singleton, hleaf]
  | @shrunk e before after t names now free shrinks =>
      refine outlasts_of_exchange (before.flatMap Item.entries ++ after.flatMap Item.entries) shrinks
        ?_ (by simp)
      rw [List.flatMap_append, List.flatMap_cons, List.append_assoc]
      exact List.perm_append_comm.append_left _

end Drive

theorem Alter.made_blank {what : NewItem} (hblank : what = .folder ∨ what = .text "") (stamp : Stamp)
    (name path : String) :
    (what.make stamp name path).id = stamp.id ∧ (what.make stamp name path).size = 0 ∧
      (what.make stamp name path).entry.isProtected = false := by
  rcases hblank with rfl | rfl <;> exact ⟨rfl, rfl, rfl⟩

theorem Handler.Does.lineEffect {call : Call} {scene : Scene} {reply : Reply}
    (h : Handler.Does call scene reply) (hr : scene.drive.root.WellFormed) :
    ∃ made gone, scene.drive.LineEffect reply.scene.drive made gone := by
  cases h with
  | fails | crashes | tells | moves | connects | disconnects => exact ⟨_, _, .same rfl⟩
  | @creates outcome what place checked item scene' blank below valid found free made =>
      obtain ⟨result, hresult, -, rfl⟩ := (Scene.commit?_eq_some_iff _).mp made
      obtain ⟨plan, hplan, rfl⟩ := Drive.commit?_eq_some_iff.mp hresult
      obtain ⟨e, cs, -, hsubject, hex⟩ := (Change.plan?_create_iff hr.grounded).mp hplan
      obtain ⟨hid, hsize, hfree⟩ := Alter.made_blank blank ⟨scene.drive.nextId, call.clock.now⟩
        (Path.fileName place) (Path.join e.path (Path.fileName place))
      obtain ⟨hpath, hname⟩ := Change.path_make ⟨scene.drive.nextId, call.clock.now⟩ what
        (Path.fileName place) (Path.join e.path (Path.fileName place))
      have hchildren := Item.children_make ⟨scene.drive.nextId, call.clock.now⟩ what
        (Path.fileName place) (Path.join e.path (Path.fileName place))
      have hacceptable := Alter.acceptable_of_isValidName (Path.isName_fileName below) valid
      rw [← hsubject] at hid hsize hfree hpath hname hchildren
      refine ⟨_, _, .grown hid ?_ ?_ ⟨hchildren, hsize⟩ hfree hex⟩
      · rwa [hname]
      · rw [hpath, hname]
  | removes outcome made =>
      obtain ⟨result, hresult, -, rfl⟩ := (Scene.commit?_eq_some_iff _).mp made
      obtain ⟨plan, hplan, rfl⟩ := Drive.commit?_eq_some_iff.mp hresult
      obtain ⟨-, hfree, e, before, after, -, hex⟩ := (Change.plan?_delete_iff hr).mp hplan
      exact ⟨_, _, .shrunk ((Change.containsProtected_eq_false_iff _).mp hfree) hex⟩
  | opens outcome opened =>
      obtain ⟨last, -, -, rfl⟩ := (Scene.open?_eq_some_iff _).mp opened
      exact ⟨_, _, .same rfl⟩

namespace Scene

-- No line does more to the tree of a drive, wherever it is typed and whatever it says, and none alters
-- an item that stays.
theorem lineEffect_perform {s : Scene} (hr : s.drive.root.WellFormed) {act : Act}
    (hline : act.isLine = true) :
    ∃ made gone, s.drive.LineEffect (s.perform act).drive made gone ∧
      Drive.Outlasts s.drive.root (s.perform act).drive.root made gone := by
  have heffect := s.line_related
    (R := fun d d' => d.root.WellFormed → ∃ made gone, d.LineEffect d' made gone)
    (fun d _ => ⟨[], [], .same rfl⟩)
    (fun command hcommand call scene => (Handler.does_builtin command hcommand call scene).lineEffect)
    act hline hr
  obtain ⟨made, gone, h⟩ := heffect
  exact ⟨made, gone, h, h.outlasts⟩

-- Take a file out of the guest's documents.
def tidy : Act := .submit ⟨"rm Documents/todo.txt", ⟨.epoch, .epoch⟩, none⟩

theorem lineEffect_perform_tidy :
    guest.drive.root.WellFormed ∧ tidy.isLine = true ∧
      ∃ made gone, guest.drive.LineEffect (guest.perform tidy).drive made gone ∧
        Drive.Outlasts guest.drive.root (guest.perform tidy).drive.root made gone := by
  have hr : guest.drive.root.WellFormed := Drive.wellFormed_stock .epoch 1
  exact ⟨hr, rfl, lineEffect_perform hr rfl⟩

end Scene

end DesktopShell

import DesktopShell.Proofs.Path.Follow
import DesktopShell.Proofs.Snapshot.RoundTrip
import DesktopShell.Proofs.World.Protected

namespace DesktopShell

namespace Drive

-- Whether the text that a drive is kept as gives back the whole tree.
def Restorable (d : Drive) : Prop :=
  ∀ next, ∃ d', ofSnapshot next d.snapshot = .ok d' ∧ d'.root = d.root

theorem ofSnapshot_eq_error {next : ItemId} {text : String} {damage : Damage}
    (h : Snapshot.tree? text = .error damage) : ofSnapshot next text = .error damage := by
  unfold ofSnapshot
  rw [h]
  rfl

theorem exists_ofSnapshot {next : ItemId} {text : String} {root : Item}
    (h : Snapshot.tree? text = .ok root) : ∃ d, ofSnapshot next text = .ok d ∧ d.root = root := by
  unfold ofSnapshot
  rw [h]
  exact ⟨_, rfl, rfl⟩

theorem restorable_iff {d : Drive} (hr : d.root.Grounded) :
    d.Restorable ↔ d.root.height ≤ 63 ∧ d.root.ids.Nodup := by
  have hread := Snapshot.tree?_render d.root
  constructor
  · intro h
    obtain ⟨d', hd', -⟩ := h 1
    have htree := ofSnapshot_eq_ok hd'
    rw [snapshot, hread] at htree
    split at htree
    · cases htree
    · next hheight =>
        refine ⟨by omega, ?_⟩
        cases hflaw : Snapshot.flaw? d.root with
        | some flaw => rw [hflaw] at htree; cases htree
        | none => exact ((Snapshot.flaw?_eq_none_iff _).mp hflaw).distinct
  · rintro ⟨hheight, hdistinct⟩ next
    have hflaw := (Snapshot.flaw?_eq_none_iff _).mpr (Item.wellFormed_iff.mpr ⟨hr, hdistinct⟩)
    apply exists_ofSnapshot
    rw [snapshot, hread, if_neg (by omega), hflaw, Option.elim]

-- A folder that is made in an empty one at a direct place is found there.
theorem descend_after_create {d : Drive} (hr : d.root.Grounded) {names : List String} {e : Entry}
    (hn : ∀ s ∈ names, Path.IsName s) (hdirect : Path.IsDirect names)
    (hfolder : d.root.descend names = some (.mk e (some []))) (name : String) (now : Moment) :
    ∃ e', (d.after (.create .folder (Path.render names) name) now).root.descend (names ++ [name]) =
      some (.mk e' (some [])) := by
  have hroute : Path.route (Path.render names) = names := by
    rw [Path.route_eq, Path.segments_render hn, Path.expand_of_isDirect hdirect]
  have hfind : d.root.find? (Path.render names) = some (.mk e (some [])) := by
    rw [Item.find?, hroute]
    exact hfolder
  obtain ⟨new, hnew⟩ : ∃ new,
      new = NewItem.folder.make ⟨d.nextId, now⟩ name (Path.join e.path name) := ⟨_, rfl⟩
  obtain ⟨root', hex⟩ := Item.exists_exchange hfolder (.mk (e.touch now) (some ([] ++ [new])))
  have hplan : (Change.create .folder (Path.render names) name).plan? d.root ⟨d.nextId, now⟩ =
      some ⟨root', new⟩ := by
    refine (Change.plan?_create_iff hr).mpr ⟨e, [], hfind, hnew, ?_⟩
    rw [hroute]
    exact hex
  have hafter : (d.after (.create .folder (Path.render names) name) now).root = root' := by
    rw [after, commit?_eq, hplan]
    rfl
  have hchild : (Item.mk (e.touch now) (some ([] ++ [new]))).child? name = some new :=
    Item.child?_mk (by simp) (by rw [hnew]; rfl)
  subst hnew
  rw [hafter]
  exact ⟨_, Item.descend_append.mpr ⟨_, hex.descend_new rfl, Item.descend_cons.mpr ⟨_, hchild, rfl⟩⟩⟩

end Drive

namespace World

variable {w : World}

-- Make as many folders as asked for, each in the one before it.
def nest : Nat → List Move
  | 0 => []
  | n + 1 => nest n ++
      [.change (.create .folder (Path.render (List.replicate n "a")) "a") Moment.epoch]

theorem isName_of_mem_replicate (n : Nat) : ∀ s ∈ List.replicate n "a", Path.IsName s := by
  intro s hs
  rw [List.eq_of_mem_replicate hs]
  exact ⟨by decide, by decide⟩

theorem isDirect_replicate (n : Nat) : Path.IsDirect (List.replicate n "a") := by
  intro first hfirst
  rw [List.eq_of_mem_replicate (List.mem_of_mem_head? hfirst)]
  decide

theorem descend_run_nest {e : Entry} (hr : w.drive.root.Grounded)
    (hempty : w.drive.root = .mk e (some [])) (n : Nat) :
    ∃ e', (w.run (nest n)).drive.root.descend (List.replicate n "a") = some (.mk e' (some [])) := by
  induction n with
  | zero => exact ⟨e, congrArg some hempty⟩
  | succ n ih =>
      obtain ⟨e', hfolder⟩ := ih
      rw [nest, run_append, List.replicate_succ']
      exact Drive.descend_after_create (grounded_run hr (nest n)) (isName_of_mem_replicate n)
        (isDirect_replicate n) hfolder "a" Moment.epoch

theorem height_run_nest {e : Entry} (hr : w.drive.root.Grounded)
    (hempty : w.drive.root = .mk e (some [])) (n : Nat) :
    n + 1 ≤ (w.run (nest n)).drive.root.height := by
  obtain ⟨e', hfolder⟩ := descend_run_nest hr hempty n
  have hheight := Item.height_of_descend hfolder
  rw [List.length_replicate] at hheight
  exact hheight

-- A tree that grew from the empty or the stock one, by whatever moves, can be kept and restored
-- exactly when no more than 63 folders lie in each other and no number was given twice, which
-- only numbers that wrap can be.
theorem restorable_run_iff {now : Moment} {next : ItemId}
    (start : w.drive.root = (Drive.empty now next).root ∨ w.drive.root = (Drive.stock now next).root)
    (moves : List Move) :
    ((w.run moves).drive.Restorable ↔
      (w.run moves).drive.root.height ≤ 63 ∧ (w.run moves).drive.root.ids.Nodup) ∧
    (w.Fresh moves → (w.run moves).drive.root.ids.Nodup) ∧
    (63 < (w.run moves).drive.root.height →
      ∀ next', Drive.ofSnapshot next' (w.run moves).drive.snapshot = .error .unreadable) := by
  have hr : w.drive.root.WellFormed := by
    rcases start with h | h
    · rw [h]
      exact Drive.wellFormed_empty now next
    · rw [h]
      exact Drive.wellFormed_stock now next
  refine ⟨Drive.restorable_iff (grounded_run hr.grounded moves), ?_, ?_⟩
  · intro hfresh
    exact (wellFormed_run hr hfresh).distinct
  · intro hheight next'
    apply Drive.ofSnapshot_eq_error
    rw [Drive.snapshot, Snapshot.tree?_render, if_pos hheight]

-- A folder with a note in it, and a file that goes.
def chores : List Move :=
  [ .change (.create .folder "/C:" "Games") Moment.epoch,
    .change (.create (.text "1. e4") "/C:/Games" "chess.txt") Moment.epoch,
    .change (.delete "/Desktop/readme.txt") Moment.epoch ]

theorem restorable_run_iff_chores :
    guests.drive.root = (Drive.stock Moment.epoch 1).root ∧ guests.Fresh chores ∧
      (guests.run chores).drive.Restorable := by
  have hfresh : guests.Fresh chores := fresh_guests (by decide)
  obtain ⟨hiff, hdistinct, -⟩ := restorable_run_iff (w := guests) (.inr rfl) chores
  have hheight : (guests.run chores).drive.root.height ≤ 63 := by decide +kernel
  exact ⟨rfl, hfresh, hiff.mpr ⟨hheight, hdistinct hfresh⟩⟩

def bare : World :=
  ⟨Drive.empty Moment.epoch 1, [], none⟩

-- One folder more than can be read back.
theorem not_restorable_nest :
    bare.Fresh (nest 63) ∧ ¬(bare.run (nest 63)).drive.Restorable := by
  have hr : bare.drive.root.WellFormed := Drive.wellFormed_empty Moment.epoch 1
  have hn : bare.drive.Numbered := Layout.drive_above Moment.epoch 1 [] (by decide)
  refine ⟨fresh_of_room hr hn (by decide), fun h => ?_⟩
  have hlow := ((Drive.restorable_iff (grounded_run hr.grounded (nest 63))).mp h).1
  have hhigh := height_run_nest hr.grounded rfl 63
  omega

end World

end DesktopShell

import DesktopShell.Proofs.Shell.Create
import DesktopShell.Proofs.World.Protected
import Mathlib.Data.List.Induction
import Mathlib.Data.List.Infix

namespace DesktopShell.World

variable {w : World} {moves : List Move}

theorem run_snoc (w : World) (front : List Move) (move : Move) :
    w.run (front ++ [move]) = (w.run front).step move :=
  run_append w front [move]

theorem altered_step (hr : w.drive.root.Grounded) {move : Move} (hline : move.isLine = true) :
    Item.Altered w.drive.root (w.step move).drive.root :=
  line_related (R := fun d d' => d.root.Grounded → Item.Altered d.root d'.root)
    (fun _ _ => .same rfl) Handler.altered_builtin w hline hr

-- Names stay apart as long as no item gets a name that is taken where it goes.
theorem namesDistinct_run (hr : w.drive.root.Grounded) (hd : w.drive.root.NamesDistinct)
    (lines : ∀ move ∈ moves, move.isLine = true)
    (hfree : ∀ front move, front ++ [move] <+: moves → ∀ checked landed name,
      Item.Added (w.run front).drive.root (w.run (front ++ [move])).drive.root checked landed name →
        landed ≠ checked → landed.child? name = none)
    {front : List Move} (hfront : front <+: moves) : (w.run front).drive.root.NamesDistinct := by
  induction front using List.reverseRecOn with
  | nil => exact hd
  | append_singleton front move ih =>
      have hbefore := ih ((List.prefix_append front [move]).trans hfront)
      have hline := lines move (hfront.subset (by simp))
      have hstep := altered_step (grounded_run hr front) hline
      rw [← run_snoc] at hstep
      exact hstep.namesDistinct hbefore (hfree front move hfront)

-- Whatever is typed on a stock drive, siblings have different names all the time exactly if no
-- `mkdir` and no `touch` adds its item to another folder than the one where it found the name
-- free, and to one where the name is taken. Nothing of the kind can happen before something on the
-- top of the drive is called like a shortcut.
theorem namesDistinct_run_iff {now : Moment} {next : ItemId}
    (start : w.drive.root = (Drive.stock now next).root)
    (lines : ∀ move ∈ moves, move.isLine = true) :
    ((∀ front, front <+: moves → (w.run front).drive.root.NamesDistinct) ↔
      ∀ front move, front ++ [move] <+: moves → ∀ checked landed name,
        Item.Added (w.run front).drive.root (w.run (front ++ [move])).drive.root checked landed
          name → landed ≠ checked → landed.child? name = none) ∧
    ((∀ front, front <+: moves → (w.run front).drive.root.NoShortcut) →
      ∀ front, front <+: moves → (w.run front).drive.root.NamesDistinct) ∧
    ∀ (what : NewItem) (usage done : String) (call : Call) (scene : Scene) (outcome : Outcome),
      scene.drive.root.Grounded →
      (Alter.create what usage done call scene).ending = .done outcome →
        ∃ target checked landed, call.line.firstArg? = some target ∧
          scene.drive.find? (Path.parent (scene.locate target)) = some checked ∧
          Item.Added scene.drive.root (Alter.create what usage done call scene).scene.drive.root
            checked landed (Path.fileName (scene.locate target)) ∧
          (landed = checked ↔ Path.IsDirect (Path.segments checked.path)) := by
  have hr : w.drive.root.Grounded := by
    rw [start]
    exact (Drive.wellFormed_stock now next).grounded
  have hd : w.drive.root.NamesDistinct := by
    rw [start]
    exact Drive.namesDistinct_stock now next
  refine ⟨⟨fun h front move hfront checked landed name hadded _ => ?_, fun h front hfront =>
    namesDistinct_run hr hd lines h hfront⟩, fun hclean front hfront => ?_,
    fun _ _ _ _ _ _ hscene => Alter.added_of_done hscene⟩
  · have hbefore := h front ((List.prefix_append front [move]).trans hfront)
    exact (hadded.namesDistinct_iff hbefore).mp (h (front ++ [move]) hfront)
  · refine namesDistinct_run hr hd lines (fun front move hmore checked landed name hadded hne => ?_)
      hfront
    have hbefore := hclean front ((List.prefix_append front [move]).trans hmore)
    exact absurd (hadded.landed_eq (grounded_run hr front) hbefore) hne

-- Two guests at work in one folder.
def errands : List Move :=
  [ .submit 0 "mkdir letters" ⟨Moment.epoch, Moment.epoch⟩,
    .execute 1 "touch \"/C:/Users/Guest/letters/to mum.txt\"" ⟨Moment.epoch, Moment.epoch⟩,
    .submitFor 0 "md letters" ⟨Moment.epoch, Moment.epoch⟩ 5 ]

theorem namesDistinct_run_iff_errands :
    guests.drive.root = (Drive.stock Moment.epoch 1).root ∧
      (∀ move ∈ errands, move.isLine = true) ∧ (guests.run errands).drive.root.NamesDistinct := by
  have hlines : ∀ move ∈ errands, move.isLine = true := by decide
  have hclean : ∀ front ∈ errands.inits, (guests.run front).drive.root.NoShortcut := by
    decide +kernel
  refine ⟨rfl, hlines, (namesDistinct_run_iff rfl hlines).2.1 (fun front hfront => ?_) errands
    List.prefix_rfl⟩
  exact hclean front (List.mem_inits front errands |>.mpr hfront)

-- A folder called like a shortcut to the top of the drive, and then its namesake: the name is
-- looked for in the folder, and the item goes to the top.
def namesake : List Move :=
  [ .submit 0 "mkdir \"/My Computer/My Computer/My Computer\"" ⟨Moment.epoch, Moment.epoch⟩,
    .submit 0 "mkdir \"/My Computer/My Computer/My Computer/My Computer\""
      ⟨Moment.epoch, Moment.epoch⟩ ]

theorem not_namesDistinct_namesake :
    guests.drive.root = (Drive.stock Moment.epoch 1).root ∧
      (∀ move ∈ namesake, move.isLine = true) ∧
      ¬(guests.run namesake).drive.root.NamesDistinct := by
  refine ⟨rfl, by decide, fun h => ?_⟩
  have hnames : (guests.run namesake).drive.root.children.map Item.name =
      ["C:", "My Computer", "My Computer"] := by decide +kernel
  have hnodup := (Item.namesDistinct_iff.mp h).1
  rw [hnames] at hnodup
  exact absurd hnodup (by decide)

end DesktopShell.World

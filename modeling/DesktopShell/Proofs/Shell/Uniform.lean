import DesktopShell.Proofs.Shell.Alike
import DesktopShell.Shell.Builtin

namespace DesktopShell

-- What is shown of an item does not depend on its number and its times.
section Look

variable (σ : Equiv.Perm ItemId) (x : Item)

theorem Browse.styleOf_recast : styleOf (x.recast σ) = styleOf x := by
  rw [styleOf, Item.isExecutable_recast, styleOf]

theorem Browse.sortByName_map (xs : List Item) :
    sortByName (xs.map (Item.recast σ)) = (sortByName xs).map (Item.recast σ) := by
  unfold sortByName
  rw [List.map_mergeSort]
  intro a _ b _
  rw [Item.name_recast, Item.name_recast]

theorem Browse.listing_recast : listing (x.recast σ) = listing x := by
  have hkind (test : Item → Bool) (htest : ∀ y : Item, test (y.recast σ) = test y) :
      sortByName ((x.children.map (Item.recast σ)).filter test) =
        (sortByName (x.children.filter test)).map (Item.recast σ) := by
    have hcomp : test ∘ Item.recast σ = test := funext htest
    rw [List.filter_map, hcomp, sortByName_map]
  simp only [listing, Item.children_recast, List.partition_eq_filter_filter]
  rw [hkind _ (Item.isFolder_recast σ), hkind _ fun y => by simp]
  simp only [List.map_map, Function.comp_def, Item.name_recast, Item.size_recast, styleOf_recast]

theorem Launch.program_recast (command target : String) :
    program command target (x.recast σ) = program command target x := by
  unfold program
  rw [Item.stem?_recast, Item.path_recast, Item.entry_recast]
  rfl

theorem Launch.openItem_recast (command target : String) :
    openItem command target (x.recast σ) = openItem command target x := by
  unfold openItem
  simp only [Item.isFolder_recast, Item.isPlainText_recast, Item.isImage_recast,
    Item.isExecutable_recast, Item.path_recast, Item.name_recast, program_recast, Item.entry_recast]
  rfl

theorem Launch.isProgramNamed_recast (target : String) :
    isProgramNamed target (x.recast σ) = isProgramNamed target x := by
  unfold isProgramNamed
  rw [Item.isExecutable_recast, Item.name_recast]

end Look

-- A handler that does the same in scenes that are alike, whatever the time is.
def Handler.Uniform (handler : Handler) : Prop :=
  ∀ {T : Reading → Reading → Prop} {σ : Equiv.Perm ItemId} {s s' : Scene} (call : Call) (clock : Clock),
    s.Alike σ s' → σ s.drive.nextId = s'.drive.nextId → T call.clock.wall.val clock.wall.val →
      Reply.Alike T σ s s' (handler call s) (handler { call with clock } s')

namespace Handler

theorem uniform_changeFolder : Uniform Browse.changeFolder := by
  intro T σ s s' call clock h _ _
  unfold Browse.changeFolder
  dsimp only
  cases call.line.firstArg? with
  | none =>
      rw [h.session.path]
      exact h.tells_same _
  | some target =>
      rcases h.lookup?_cases target with ⟨hx, hx'⟩ | ⟨x, x', hx, hx', halike⟩
      · simp only [hx, hx']
        exact h.fails _
      · have hfolder := halike.congr Item.isFolder Item.isFolder_recast
        simp only [hx, hx', hfolder, halike.path_eq]
        split
        · exact h.goes (h.session.setPath x.path) (.refl _)
        · exact h.fails _

theorem uniform_printFolder : Uniform Browse.printFolder := by
  intro T σ s s' call clock h _ _
  unfold Browse.printFolder
  rw [h.session.path]
  exact h.tells_same _

theorem uniform_list : Uniform Browse.list := by
  intro T σ s s' call clock h _ _
  unfold Browse.list
  dsimp only
  rcases h.lookup?_cases (call.line.firstArg?.getD ".") with ⟨hx, hx'⟩ | ⟨x, x', hx, hx', halike⟩
  · simp only [hx, hx']
    exact h.fails _
  · have hfolder := halike.congr Item.isFolder Item.isFolder_recast
    have hextension := halike.congr (·.entry.extension) fun σ y => by rw [Item.entry_recast]; rfl
    have hstyle := halike.congr Browse.styleOf Browse.styleOf_recast
    have hempty := halike.congr (·.children.isEmpty) fun σ y => by simp
    have hlisting := halike.congr Browse.listing Browse.listing_recast
    simp only [hx, hx', hfolder, halike.name_eq, hextension, hstyle, hempty, hlisting]
    split
    · exact h.tells_same _
    · split <;> exact h.tells_same _

theorem uniform_showText : Uniform Browse.showText := by
  intro T σ s s' call clock h _ _
  unfold Browse.showText
  dsimp only
  cases call.line.firstArg? with
  | none => exact h.fails _
  | some target =>
      rcases h.lookup?_cases target with ⟨hx, hx'⟩ | ⟨x, x', hx, hx', halike⟩
      · simp only [hx, hx']
        exact h.fails _
      · have hfolder := halike.congr Item.isFolder Item.isFolder_recast
        have hplain := halike.congr Item.isPlainText Item.isPlainText_recast
        have hcontent := halike.congr (·.entry.content) fun σ y => by rw [Item.entry_recast]; rfl
        simp only [hx, hx', hfolder, hplain, hcontent, halike.name_eq]
        split
        · exact h.fails _
        · split
          · exact h.fails _
          · split <;> exact h.tells_same _

theorem uniform_create (what : NewItem) (usage done : String) :
    Uniform (Alter.create what usage done) := by
  intro T σ s s' call clock h hnext _
  unfold Alter.create
  dsimp only
  cases call.line.firstArg? with
  | none => exact h.fails _
  | some target =>
      simp only [h.locate_eq, Call.name]
      split
      · exact h.fails _
      · split
        · exact h.fails _
        · rcases h.drive.root.find?_cases (Path.parent (s.locate target)) with
            ⟨hx, hx'⟩ | ⟨x, x', hx, hx', halike⟩
          · simp only [Drive.find?, hx, hx']
            exact h.fails _
          · have hfolder := halike.congr Item.isFolder Item.isFolder_recast
            simp only [Drive.find?, hx, hx', hfolder, halike.child?_isSome, halike.path_eq]
            split
            · exact h.fails _
            · split
              · exact h.fails _
              · rcases h.commit?_cases hnext
                  (.create what x.path (Path.fileName (s.locate target))) call.clock.now clock.now with
                  ⟨hnone, hnone'⟩ | ⟨y, y', t, t', hsome, hsome', hy, hparallel⟩
                · simp only [hnone, hnone']
                  exact h.fails _
                · simp only [hsome, hsome', hy.name_eq]
                  exact hparallel.does _

theorem uniform_remove : Uniform Alter.remove := by
  intro T σ s s' call clock h hnext _
  unfold Alter.remove
  dsimp only
  cases call.line.firstArg? with
  | none => exact h.fails _
  | some target =>
      rcases h.lookup?_cases target with ⟨hx, hx'⟩ | ⟨x, x', hx, hx', halike⟩
      · simp only [hx, hx']
        exact h.fails _
      · have hfree := halike.congr Item.containsProtected Item.containsProtected_recast
        simp only [hx, hx', hfree, halike.path_eq, halike.name_eq]
        split
        · exact h.fails _
        · rcases h.commit?_cases hnext (.delete x.path) call.clock.now clock.now with
            ⟨hnone, hnone'⟩ | ⟨y, y', t, t', hsome, hsome', -, hparallel⟩
          · simp only [hnone, hnone']
            exact h.fails _
          · simp only [hsome, hsome']
            exact hparallel.does _

theorem search_eq {σ : Equiv.Perm ItemId} {s s' : Scene} (h : s.Alike σ s') (command target : String) :
    Launch.search command s' target = Launch.search command s target := by
  have hopen {x x' : Item} (halike : x.Alike σ x') :
      Launch.openItem command target x' = Launch.openItem command target x :=
    halike.congr (Launch.openItem command target) fun σ y => Launch.openItem_recast σ y command target
  have hfirst := h.drive.root.findFirst?_cases fun σ y => Launch.isProgramNamed_recast σ y target
  unfold Launch.search
  rw [h.session.path]
  cases App.find? target with
  | some app => rfl
  | none =>
      rcases h.lookup?_cases target with ⟨hx, hx'⟩ | ⟨x, x', hx, hx', halike⟩
      · rcases hfirst with ⟨hy, hy'⟩ | ⟨y, y', hy, hy', halike⟩
        · simp only [hx, hx', hy, hy']
        · simp only [hx, hx', hy, hy']
          exact hopen halike
      · simp only [hx, hx']
        exact hopen halike

theorem uniform_run : Uniform Launch.run := by
  intro T σ s s' call clock h _ _
  unfold Launch.run
  dsimp only
  cases call.line.firstArg? with
  | none => exact h.fails _
  | some target =>
      simp only [Call.name, search_eq h]
      split
      · exact h.crashes
      · exact h.fails _
      · next window _ =>
          rcases h.open?_cases window with ⟨hnone, hnone'⟩ | ⟨id, t, t', hsome, hsome', hparallel⟩
          · simp only [hnone, hnone']
            exact h.fails _
          · simp only [hsome, hsome']
            exact hparallel.does _

theorem uniform_hack : Uniform Mainframe.hack := by
  intro T σ s s' call clock h _ _
  unfold Mainframe.hack
  dsimp only
  cases call.line.args with
  | nil =>
      unfold Mainframe.connect
      rw [h.session.mode]
      cases s.session.mode with
      | hack => exact h.tells_same _
      | normal =>
          exact h.goes (h.session.enterHack _) ⟨(Outcome.Alike.refl _).lines, rfl, rfl⟩
  | cons sub operands =>
      rw [h.session.mode]
      cases s.session.mode with
      | normal => exact h.fails _
      | hack =>
          dsimp only
          split
          · cases operands with
            | nil => exact h.fails _
            | cons file more =>
                unfold Mainframe.readFile
                dsimp only
                split
                · exact h.tells_same _
                · exact h.fails _
          · split
            · cases operands with
              | nil => exact h.fails _
              | cons name more =>
                  unfold Mainframe.runProgram
                  dsimp only
                  split
                  · exact h.tells_same _
                  · exact h.fails _
            · split
              · exact h.goes h.session.exitHack (.refl _)
              · exact h.fails _

theorem uniform_matrix : Uniform Mainframe.matrix := by
  intro T σ s s' call clock h _ _
  unfold Mainframe.matrix
  dsimp only
  split <;> exact h.tells_same _

theorem uniform_help : Uniform Inform.help := by
  intro T σ s s' call clock h _ _
  unfold Inform.help
  dsimp only
  split
  · split
    · exact h.tells_same _
    · exact h.fails _
  · exact h.tells_same _

theorem uniform_history : Uniform Inform.history := by
  intro T σ s s' call clock h _ _
  apply h.tells
  intro hsame
  rw [hsame]
  exact .refl _

theorem uniform_whoAmI : Uniform Inform.whoAmI := by
  intro T σ s s' call clock h _ _
  unfold Inform.whoAmI
  rw [h.session.user]
  exact h.tells_same _

theorem uniform_date : Uniform Inform.date := by
  intro T σ s s' call clock h _ htime
  have hline : Line.Alike T (.text (Inform.dateText call.clock.wall.val))
      (.text (Inform.dateText clock.wall.val)) := .inr ⟨_, _, htime, rfl, rfl⟩
  exact h.tells fun _ => Outcome.alike_ofLine hline

theorem uniform_builtin : ∀ command ∈ Registry.builtin, Uniform command.handler := by
  simp only [Registry.builtin, Registry.changeFolder, Registry.printFolder, Registry.list,
    Registry.makeFolder, Registry.makeFile, Registry.remove, Registry.showText, Registry.run,
    Registry.hack, Registry.matrix, Registry.help, Registry.clear, Registry.echo, Registry.history,
    Registry.whoAmI, Registry.date, Registry.version, List.forall_mem_cons]
  refine ⟨uniform_changeFolder, uniform_printFolder, uniform_list, uniform_create _ _ _,
    uniform_create _ _ _, uniform_remove, uniform_showText, uniform_run, uniform_hack,
    uniform_matrix, uniform_help, fun _ _ h _ _ => h.tells_same _, fun _ _ h _ _ => h.tells_same _,
    uniform_history, uniform_whoAmI, uniform_date, fun _ _ h _ _ => h.tells_same _, ?_⟩
  exact List.forall_mem_nil _

end Handler

-- Results of two lines that are alike, as far as outcomes do not depend on what `remembered` says.
inductive Result.Alike (T : Reading → Reading → Prop) (remembered : Prop) :
    Except Failure Outcome → Except Failure Outcome → Prop
  | ok {o o' : Outcome} (outcome : remembered → o.Alike T o') :
      Alike T remembered (.ok o) (.ok o')
  | error (failure : Failure) : Alike T remembered (.error failure) (.error failure)

namespace Scene.Alike

variable {T : Reading → Reading → Prop} {σ : Equiv.Perm ItemId} {s s' : Scene} (h : s.Alike σ s')
  (hnext : σ s.drive.nextId = s'.drive.nextId)

include h hnext

theorem call {command : Command} (huniform : Handler.Uniform command.handler) (call : Call)
    (clock : Clock) (htime : T call.clock.wall.val clock.wall.val) :
    s.Parallel σ s' (s.call command call).1 (s'.call command { call with clock }).1 ∧
      Result.Alike T (s'.session.history = s.session.history) (s.call command call).2
        (s'.call command { call with clock }).2 := by
  obtain ⟨hscenes, hending⟩ := huniform call clock h hnext htime
  unfold Scene.call
  dsimp only
  generalize command.handler call s = r at hscenes hending ⊢
  generalize command.handler { call with clock } s' = r' at hscenes hending ⊢
  obtain ⟨t, ending⟩ := r
  obtain ⟨t', ending'⟩ := r'
  cases hending with
  | done outcome => exact ⟨hscenes, .ok outcome⟩
  | failed failure => exact ⟨hscenes, .error failure⟩
  | crashed => exact ⟨hscenes, .error _⟩

-- A line does the same in scenes that are alike.
theorem execute (clock clock' : Clock) (line : String) (htime : T clock.wall.val clock'.wall.val) :
    s.Parallel σ s' (s.execute Registry.builtin clock line).1
        (s'.execute Registry.builtin clock' line).1 ∧
      Result.Alike T (s'.session.history = s.session.history)
        (s.execute Registry.builtin clock line).2 (s'.execute Registry.builtin clock' line).2 := by
  unfold Scene.execute
  dsimp only
  split
  · exact ⟨h.parallel_self, .ok fun _ => .refl _⟩
  · split
    · exact ⟨h.parallel_self, .error _⟩
    · next command hfind =>
        exact h.call hnext (Handler.uniform_builtin command (List.mem_of_find?_eq_some hfind))
          ⟨CommandLine.parse line, Registry.builtin.catalog, clock⟩ clock' htime

end Scene.Alike

end DesktopShell

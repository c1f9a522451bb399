import DesktopShell.Proofs.Cli.Options
import DesktopShell.Proofs.Cli.Perform
import DesktopShell.Proofs.Drive.Timeless

namespace DesktopShell

theorem Line.Alike.eq {T : Reading → Reading → Prop} {l l' : Line} (h : l.Alike T l')
    (hT : ∀ r r', T r r' → r' = r) : l' = l := by
  rcases h with rfl | ⟨r, r', hread, rfl, rfl⟩
  · rfl
  · rw [hT r r' hread]

theorem Event.forall₂_eq {T : Reading → Reading → Prop} (hT : ∀ r r', T r r' → r' = r)
    {events events' : List Event} (h : List.Forall₂ (Event.Alike T) events events') :
    events' = events := by
  rw [← List.forall₂_eq_eq_eq]
  refine h.flip.imp fun event' event halike => ?_
  cases halike with
  | same => rfl
  | shown hline => rw [hline.eq hT]

namespace Cli

-- The drive that the same run starts with at another time.
theorem Loaded.exists_alike {place : String → Place} {now : Moment} {snapshot : Option String}
    {drive : Drive} (h : Loaded place now snapshot drive) (now' : Moment) :
    ∃ drive', Loaded place now' snapshot drive' ∧ drive.Alike 1 drive' ∧
      drive'.nextId = drive.nextId ∧ (now' = now → drive' = drive) := by
  have hnext : (Drive.stock now' 1).nextId = (Drive.stock now 1).nextId := by
    rw [Drive.nextId_stock, Drive.nextId_stock]
  cases h with
  | unnamed => exact ⟨_, .unnamed, Drive.alike_stock now now' 1, hnext, fun he => by rw [he]⟩
  | missing absent =>
      exact ⟨_, .missing absent, Drive.alike_stock now now' 1, hnext, fun he => by rw [he]⟩
  | kept holds accepted => exact ⟨drive, .kept holds accepted, .refl drive, rfl, fun _ => rfl⟩

-- The readings of two clocks at one tick.
def SameTick (clock clock' : Nat → Clock) (r r' : Reading) : Prop :=
  ∃ tick, r = (clock tick).wall.val ∧ r' = (clock' tick).wall.val

theorem lockstep_submissions (clock clock' : Nat → Clock) (tick : Nat) (lines : List String) :
    List.Forall₂ (Scene.Lockstep (SameTick clock clock')) (submissions clock tick lines)
      (submissions clock' tick lines) := by
  rw [submissions, submissions, List.forall₂_map_left_iff, List.forall₂_map_right_iff]
  exact List.forall₂_same.mpr fun p _ => ⟨rfl, p.2, rfl, rfl⟩

theorem inStep_opening (T : Reading → Reading → Prop) (settings : Settings) {drive drive' : Drive}
    (h : drive.Alike 1 drive') :
    Scene.InStep T 1 (opening settings drive) (opening settings drive') where
  alike := ⟨⟨rfl, rfl, rfl, rfl⟩, ⟨h.root, rfl⟩, rfl⟩
  effect := rfl
  history := rfl
  feed := .nil

-- The same lines come to the same, whenever they are run.
theorem alike_receiveAll (clock clock' : Nat → Clock) (settings : Settings) {lines : List String}
    (hsome : lines ≠ []) {drive drive' : Drive} (h : drive.Alike 1 drive')
    (hnext : drive'.nextId = drive.nextId) :
    let scene := (opening settings drive).receiveAll (submissions clock 1 lines)
    let scene' := (opening settings drive').receiveAll (submissions clock' 1 lines)
    (∃ σ, scene.drive.root.Alike σ scene'.drive.root) ∧
      List.Forall₂ (Event.Alike (SameTick clock clock')) scene.log scene'.log := by
  intro scene scene'
  have hidle (clock : Nat → Clock) (drive : Drive) :
      ((opening settings drive).receiveAll (submissions clock 1 lines)).session.pending = [] := by
    apply Scene.pending_receiveAll
    · simpa [submissions] using hsome
    · intro submission hmem
      obtain ⟨p, -, rfl⟩ := List.mem_map.mp hmem
      rfl
  obtain ⟨σ, hstep⟩ := Scene.inStep_receiveAll (lockstep_submissions clock clock' 1 lines)
    (inStep_opening _ settings h) (.inl ⟨rfl, hnext⟩)
  have hfeed := hstep.feed
  rw [Scene.feed_of_idle _ (hidle clock drive), Scene.feed_of_idle _ (hidle clock' drive')] at hfeed
  exact ⟨⟨σ, hstep.alike.drive.root⟩, hfeed⟩

-- Texts of trees that differ in nothing but numbers and times.
def SameTree (text text' : String) : Prop :=
  ∃ (σ : Equiv.Perm ItemId) (x x' : Item), x.Alike σ x' ∧ text = x.toJson.render ∧
    text' = x'.toJson.render

-- Two runs that read their clocks at the same ticks, the second of which says who it is before all
-- else.
structure Finish.Agrees (clock clock' : Nat → Clock) (f f' : Finish) : Prop where
  code : f'.code = f.code
  saved : Option.Rel SameTree f.saved f'.saved
  output : ∃ events events',
    List.Forall₂ (Event.Alike (SameTick clock clock')) events events' ∧
      f.output = String.join (events.map printed) ∧
      f'.output = bannerText ++ String.join (events'.map printed)
  dates : (∀ tick, (clock' tick).wall = (clock tick).wall) → f'.output = bannerText ++ f.output
  times : clock' = clock → f'.saved = f.saved

variable {host : Host} {options : Options} {lines : List String}

theorem agrees_perform (hsome : lines ≠ []) (hplain : ∀ line ∈ lines, IsPlain line)
    (clock' : Nat → Clock) (hstarts : Starts host options) :
    (perform host { options with commands := lines }).Agrees host.clock clock'
      (perform { host with input := typed lines, clock := clock' }
        { options with commands := [] }) := by
  obtain ⟨settings, drive, hsettings, hdrive, hroom⟩ := hstarts
  obtain ⟨drive', hdrive', halike, hnext, hsame⟩ := hdrive.exists_alike (clock' 0).now
  obtain ⟨⟨σ, htree⟩, hlog⟩ := alike_receiveAll host.clock clock' settings hsome halike hnext
  have htold := perform_eq host { options with commands := lines } hsettings hdrive hroom
    (if_neg hsome)
  have htyped := perform_eq { host with input := typed lines, clock := clock' }
    { options with commands := [] } hsettings hdrive' hroom (ofChunks_typed hplain)
  dsimp only at htold htyped
  rw [if_neg hsome] at htold
  rw [if_pos rfl] at htyped
  rw [htold, htyped]
  refine ⟨rfl, ?_, ⟨_, _, hlog, String.empty_append, rfl⟩, fun hdates => ?_, ?_⟩
  · dsimp only
    cases true && options.snapshot.all host.canWrite with
    | false => exact .none
    | true =>
        cases options.snapshot with
        | none => exact .none
        | some file => exact .some ⟨σ, _, _, htree, rfl, rfl⟩
  · have hsameLog := Event.forall₂_eq (fun r r' ⟨tick, hr, hr'⟩ => by rw [hr, hr', hdates]) hlog
    dsimp only
    rw [hsameLog, String.empty_append]
  · rintro rfl
    rw [hsame rfl]

-- A run that halts does so at any time, whatever its lines are.
theorem Halts.anytime {code : Nat} (h : Halts host options code) (input : Bytes)
    (clock' : Nat → Clock) (commands : List String) :
    Halts { host with input, clock := clock' } { options with commands } code := by
  cases h with
  | unconfigured hnone => exact .unconfigured hnone
  | unloaded hnone =>
      refine .unloaded fun drive hdrive => ?_
      obtain ⟨drive', hdrive', -⟩ := hdrive.exists_alike (host.clock 0).now
      exact hnone drive' hdrive'
  | crashed hcrashes =>
      obtain ⟨settings, drive, hsettings, hdrive, hlacks⟩ := hcrashes
      obtain ⟨drive', hdrive', -⟩ := hdrive.exists_alike (clock' 0).now
      exact .crashed ⟨settings, drive', hsettings, hdrive', hlacks⟩

-- A run does the same whether its lines stand among its arguments or are typed.
theorem run_typed {told bare : List String} (nonempty : lines ≠ [])
    (plain : ∀ line ∈ lines, IsPlain line)
    (asked : Request.ofArguments told = .run { options with commands := lines })
    (unasked : Request.ofArguments bare = .run { options with commands := [] })
    (clock' : Nat → Clock) :
    let f := run host told
    let f' := run { host with input := typed lines, clock := clock' } bare
    Request.ofArguments (lines.map asking ++ bare) = Request.ofArguments told ∧
      (Starts host options → f.Agrees host.clock clock' f') ∧
      (¬ Starts host options →
        ∃ code, Halts host options code ∧ f = ⟨code, "", none⟩ ∧ f' = ⟨code, "", none⟩) := by
  intro f f'
  have htold : f = perform host { options with commands := lines } := by
    show run host told = _
    rw [run, asked]
  have htyped : f' = perform { host with input := typed lines, clock := clock' }
      { options with commands := [] } := by
    show run _ bare = _
    rw [run, unasked]
  rw [htold, htyped]
  refine ⟨?_, agrees_perform nonempty plain clock', fun hstarts => ?_⟩
  · rw [ofArguments_asking, asked, unasked, Request.behind, Options.behind, List.append_nil]
  · obtain ⟨code, hhalts⟩ := (starts_or_halts host options).resolve_left hstarts
    exact ⟨code, hhalts, perform_of_halts _ _ (hhalts.anytime host.input host.clock lines),
      perform_of_halts _ _ (hhalts.anytime (typed lines) clock' [])⟩

-- One who asks for three lines in three ways, and one who types them a day later.
theorem run_typed_notes :
    let lines := ["mkdir notes", "", "date  "]
    let told := ["-e", "mkdir notes", "--command=", "-edate  ", "-s", "drive.json"]
    let bare := ["-s", "drive.json"]
    let host := bareHost (typed ["exit"])
    let clock' : Nat → Clock := fun _ => ⟨Scene.dayLater, Scene.dayLater⟩
    let host' := { host with input := typed lines, clock := clock' }
    (lines ≠ [] ∧ (∀ line ∈ lines, IsPlain line) ∧
      Request.ofArguments told = .run { keeping with commands := lines } ∧
      Request.ofArguments bare = .run { keeping with commands := [] } ∧ Starts host keeping) ∧
    (run host told).code = 0 ∧ (run host told).Agrees host.clock clock' (run host' bare) := by
  intro lines told bare host clock' host'
  have hplain : ∀ line ∈ lines, IsPlain line := by decide
  have htold : Request.ofArguments told = .run { keeping with commands := lines } := by decide
  have hbare : Request.ofArguments bare = .run { keeping with commands := [] } := by decide
  have hstarts : Starts host keeping :=
    ⟨_, _, .byDefault, .missing rfl, Memory.hasRoom_ample_default⟩
  obtain ⟨-, hagrees, -⟩ :=
    @run_typed host keeping lines told bare (by decide) hplain htold hbare clock'
  exact ⟨⟨by decide, hplain, htold, hbare, hstarts⟩, by decide +kernel, hagrees hstarts⟩

end Cli

end DesktopShell

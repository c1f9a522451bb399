import DesktopShell.Proofs.Drive.Apart
import DesktopShell.Proofs.Drive.Turnover
import Mathlib.Data.List.Infix

namespace DesktopShell

namespace Item

-- Whatever is below an item that is in place has a path that goes on from the item's own.
theorem Placed.segments_below {x y : Item} (hx : x.Placed) (hy : y ∈ x.walk) :
    Path.segments x.path <+: Path.segments y.path := by
  induction x using childInduction with
  | step x ih =>
      rcases mem_walk.mp hy with rfl | ⟨c, hc, hy⟩
      · exact List.prefix_refl _
      · refine .trans ?_ (ih c hc (hx.child hc) hy)
        rw [hx.path_child hc, Path.segments_join]
        exact List.prefix_append _ _

end Item

namespace Change

def makesBinary : Change → Bool
  | create (.binary _) _ _ => true
  | create .folder _ _ | create (.text _) _ _ | update .. | delete _ => false

theorem makesBinary_iff {change : Change} :
    change.makesBinary = true ↔ ∃ payload place name, change = create (.binary payload) place name := by
  constructor
  · intro h
    cases change with
    | create what place name =>
        cases what with
        | binary payload => exact ⟨payload, place, name, rfl⟩
        | folder => cases h
        | text content => cases h
    | update path content => cases h
    | delete path => cases h
  · rintro ⟨payload, place, name, rfl⟩
    rfl

-- What comes in with a payload is a new binary file.
theorem makesBinary_of_newcomer {root : Item} {stamp : Stamp} {change : Change} {plan : Plan}
    {e : Entry} (h : change.plan? root stamp = some plan) (he : e ∈ change.newcomers plan.subject)
    (hbinary : e.payload.isSome = true) :
    change.makesBinary = true ∧ e = plan.subject.entry := by
  cases change with
  | update path content => cases he
  | delete path => cases he
  | create what place name =>
      obtain rfl := List.mem_singleton.mp he
      obtain ⟨parent, -, -, hsubject, -⟩ := plan?_create.mp h
      rw [hsubject] at hbinary
      cases what with
      | binary payload => exact ⟨rfl, rfl⟩
      | folder => cases hbinary
      | text content => cases hbinary

theorem newcomers_of_makesBinary {change : Change} (h : change.makesBinary = true)
    (subject : Item) : change.newcomers subject = [subject.entry] := by
  obtain ⟨payload, place, name, rfl⟩ := makesBinary_iff.mp h
  rfl

theorem mem_departed {change : Change} {subject : Item} {i : ItemId} :
    i ∈ change.departed subject ↔ change.deletes = true ∧ i ∈ subject.ids := by
  cases change <;> simp [departed, deletes]

-- A change of a drive that gives a new item a number of its own and a name without slashes that is
-- free where the item goes.
def Proper (d : Drive) : Change → Prop
  | create _ place name =>
      d.nextId ∉ d.root.ids ∧ Path.IsName name ∧ (d.find? place).bind (·.child? name) = none
  | update .. | delete _ => True

instance (d : Drive) (change : Change) : Decidable (change.Proper d) :=
  match change with
  | create _ place name =>
      inferInstanceAs (Decidable (d.nextId ∉ d.root.ids ∧ (name ≠ "" ∧ '/' ∉ name.toList) ∧
        (d.find? place).bind (·.child? name) = none))
  | update .. | delete _ => .isTrue trivial

theorem Proper.fresh {d : Drive} {change : Change} (h : change.Proper d)
    (hcreates : change.creates = true) : d.nextId ∉ d.root.ids := by
  cases change with
  | create what place name => exact h.1
  | update path content => cases hcreates
  | delete path => cases hcreates

end Change

-- What is so of a new binary file: its number is its own, and it is found at its path.
structure Committed.Landed (d : Drive) (result : Committed) : Prop where
  fresh : result.subject.id ∉ d.root.ids
  binary : result.subject.entry.payload.isSome = true
  named : Path.IsName result.subject.name
  below : Path.segments result.subject.path ≠ []
  found : result.drive.root.descend (Path.segments result.subject.path) = some result.subject

-- What a desktop shows once it has heard of an icon.
def Icon.mark (shown : List String) : Icon → List String
  | placed p => p :: shown
  | removed p => shown.filter (· ≠ p)

-- A drive, the icons that its desktop shows, and the numbers of the binary files made so far.
structure Watch where
  drive : Drive
  shown : List String
  made : List ItemId

namespace Watch

def start (d : Drive) (folder : String) : Watch :=
  ⟨d.withDesktop folder, [], []⟩

def step (w : Watch) (c : Change × Moment) : Watch :=
  match w.drive.commit? c.1 c.2 with
  | none => w
  | some result =>
      { drive := result.drive
        shown := result.icon.elim w.shown (Icon.mark w.shown)
        made := if c.1.makesBinary then result.subject.id :: w.made else w.made }

def run (w : Watch) (changes : List (Change × Moment)) : Watch :=
  changes.foldl step w

-- The binary files made so far that are in the folder.
def Live (w : Watch) (folder p : String) : Prop :=
  ∃ f x, w.drive.root.descend (Path.segments folder) = some f ∧ x ∈ f.children ∧ x.id ∈ w.made ∧
    x.entry.payload.isSome = true ∧ x.path = p

-- The desktop shows the live files, and no others.
def Faithful (w : Watch) (folder : String) : Prop :=
  ∀ p, p ∈ w.shown ↔ w.Live folder p

-- A deletion that takes the folder away, or one above it, while there is such a file in it.
def Sweeps (w : Watch) (folder : String) (c : Change × Moment) : Prop :=
  ∃ result p, w.drive.commit? c.1 c.2 = some result ∧ c.1.deletes = true ∧
    Path.segments result.subject.path <+: Path.segments folder ∧ w.Live folder p

-- A binary file made so far.
structure Made (w : Watch) (e : Entry) : Prop where
  there : e ∈ w.drive.root.entries
  id : e.id ∈ w.made
  binary : e.payload.isSome = true

-- A path right in a folder.
def Within (folder p : String) : Prop :=
  ∃ name, Path.segments p = Path.segments folder ++ [name]

theorem parent_eq_iff_within {folder p : String} (hp : Path.segments p ≠ []) :
    Path.normalize folder = Path.parent p ↔ Within folder p := by
  constructor
  · intro h
    have hsegs := congrArg Path.segments h
    rw [Path.segments_normalize, Path.segments_parent] at hsegs
    refine ⟨(Path.segments p).getLast hp, ?_⟩
    rw [hsegs, List.dropLast_append_getLast]
  · rintro ⟨name, hname⟩
    rw [Path.normalize, Path.parent, hname, List.dropLast_concat]

-- What holds all along: every binary file made so far is found at its path.
structure Sound (w : Watch) (folder : String) : Prop where
  desktop : w.drive.desktop = some (Path.normalize folder)
  wellFormed : w.drive.root.WellFormed
  found : ∀ e, w.Made e → Path.IsName e.name ∧
    ∃ x, w.drive.root.descend (Path.segments e.path) = some x ∧ x.entry = e

section Step

variable {w : Watch} {folder p : String} {c : Change × Moment} {result : Committed} {e e' : Entry}

theorem step_of_none (hresult : w.drive.commit? c.1 c.2 = none) : w.step c = w := by
  rw [step, hresult]

theorem step_of_some (hresult : w.drive.commit? c.1 c.2 = some result) :
    w.step c =
      { drive := result.drive
        shown := result.icon.elim w.shown (Icon.mark w.shown)
        made := if c.1.makesBinary then result.subject.id :: w.made else w.made } := by
  rw [step, hresult]

-- Live files by their paths alone.
theorem live_iff (h : w.Sound folder) :
    w.Live folder p ↔ (∃ e, w.Made e ∧ e.path = p) ∧ Within folder p := by
  have hr := h.wellFormed.grounded
  constructor
  · rintro ⟨f, x, hf, hx, hid, hbinary, rfl⟩
    have hwalk : x ∈ w.drive.root.walk :=
      Item.mem_walk_trans (Item.mem_walk.mpr (.inr ⟨x, hx, Item.self_mem_walk x⟩))
        (Item.mem_walk_of_descend hf)
    have hmade : w.Made x.entry := ⟨Item.entry_mem_entries hwalk, hid, hbinary⟩
    refine ⟨⟨x.entry, hmade, rfl⟩, x.name, ?_⟩
    have hplaced := hr.placed.of_mem_walk (Item.mem_walk_of_descend hf)
    have hpath := Item.segments_path_of_descend hr.placed
      (fun _ => Path.isName_of_mem_segments) hf
    rw [(Path.isRoot_iff _).mp hr.top, List.nil_append] at hpath
    rw [hplaced.path_child hx, Path.segments_join, hpath,
      Path.segments_of_isName (h.found _ hmade).1]
  · rintro ⟨⟨e, hmade, rfl⟩, name, hname⟩
    obtain ⟨-, x, hx, rfl⟩ := h.found e hmade
    rw [hname, Item.descend_append] at hx
    obtain ⟨f, hf, hx⟩ := hx
    obtain ⟨x', hchild, hx⟩ := Item.descend_cons.mp hx
    obtain rfl : x' = x := Option.some.inj hx
    exact ⟨f, x', hf, Item.mem_children_of_child? hchild, hmade.id, hmade.binary, rfl⟩

-- What is deleted is found at its path, and is not the root.
theorem subject_of_deletes (h : w.Sound folder) (hresult : w.drive.commit? c.1 c.2 = some result)
    (hdeletes : c.1.deletes = true) :
    Path.segments result.subject.path ≠ [] ∧
      w.drive.root.descend (Path.segments result.subject.path) = some result.subject := by
  obtain ⟨plan, hplan, rfl⟩ := Drive.commit?_eq_some_iff.mp hresult
  cases hchange : c.1 with
  | create what place name => simp [hchange, Change.deletes] at hdeletes
  | update path content => simp [hchange, Change.deletes] at hdeletes
  | delete path =>
      rw [hchange] at hplan
      obtain ⟨htarget, -⟩ := Change.plan?_delete.mp hplan
      obtain ⟨hfind, htop⟩ := Option.filter_eq_some_iff.mp htarget
      refine ⟨?_, ?_⟩
      · rw [Ne, ← Path.isRoot_iff]
        simpa using htop
      · rw [h.wellFormed.grounded.segments_path hfind]
        exact hfind

-- A change takes away the files that lie where it deletes.
theorem mem_departed_iff (h : w.Sound folder) (hresult : w.drive.commit? c.1 c.2 = some result)
    (he : w.Made e) :
    e.id ∈ c.1.departed result.subject ↔
      c.1.deletes = true ∧ Path.segments result.subject.path <+: Path.segments e.path := by
  rw [Change.mem_departed]
  refine and_congr_right fun hdeletes => ?_
  have hr := h.wellFormed
  obtain ⟨-, hsubject⟩ := subject_of_deletes h hresult hdeletes
  have hwalk := Item.mem_walk_of_descend hsubject
  obtain ⟨-, x, hx, rfl⟩ := h.found e he
  constructor
  · intro hid
    rw [Item.ids_eq_map_walk] at hid
    obtain ⟨y, hy, hyid⟩ := List.mem_map.mp hid
    obtain rfl := hr.eq_of_id (Item.mem_walk_trans hy hwalk) (Item.mem_walk_of_descend hx) hyid
    exact (hr.placed.of_mem_walk hwalk).segments_below hy
  · rintro ⟨more, hmore⟩
    rw [← hmore, Item.descend_append] at hx
    obtain ⟨y, hy, hx⟩ := hx
    obtain rfl := Option.some.inj (hsubject.symm.trans hy)
    exact Item.id_mem_ids (Item.mem_walk_of_descend hx)

theorem landed_of_makesBinary (h : w.Sound folder) (hproper : c.1.Proper w.drive)
    (hresult : w.drive.commit? c.1 c.2 = some result) (hmakes : c.1.makesBinary = true) :
    result.Landed w.drive := by
  obtain ⟨payload, place, name, hchange⟩ := Change.makesBinary_iff.mp hmakes
  obtain ⟨plan, hplan, rfl⟩ := Drive.commit?_eq_some_iff.mp hresult
  rw [hchange] at hproper hplan
  obtain ⟨hfresh, hname, hfree⟩ := hproper
  have hr := h.wellFormed.grounded
  obtain ⟨e, cs, hfind, hsubject, hex⟩ := (Change.plan?_create_iff hr).mp hplan
  have hid : plan.subject.id = w.drive.nextId := by rw [hsubject, Item.id_make]
  obtain ⟨hmade, hnamed⟩ := Change.path_make ⟨w.drive.nextId, c.2⟩ (.binary payload) name
    (Path.join e.path name)
  rw [← hsubject] at hmade hnamed
  have hplace : Path.segments e.path = Path.route place := hr.segments_path hfind
  have hpath : Path.segments plan.subject.path = Path.route place ++ [name] := by
    rw [hmade, Path.segments_join, hplace, Path.segments_of_isName hname]
  have hbinary : plan.subject.entry.payload.isSome = true := by
    rw [hsubject]
    rfl
  refine ⟨hid ▸ hfresh, hbinary, hnamed ▸ hname, hpath ▸ List.concat_ne_nil _ _, ?_⟩
  rw [hpath, Item.descend_append]
  refine ⟨_, hex.descend_new rfl, Item.descend_cons.mpr ⟨plan.subject, ?_, rfl⟩⟩
  rw [Drive.find?, hfind, Option.bind_some, Item.child?_eq_none_iff] at hfree
  exact Item.child?_mk (fun y hy hsame => hfree (List.mem_map.mpr ⟨y, hy, hsame⟩)) hnamed

theorem turnover_of_some (h : w.Sound folder) (hresult : w.drive.commit? c.1 c.2 = some result) :
    w.drive.root.Turnover result.drive.root (c.1.newcomers result.subject)
      (c.1.departed result.subject) := by
  obtain ⟨plan, hplan, rfl⟩ := Drive.commit?_eq_some_iff.mp hresult
  exact Change.turnover_plan? h.wellFormed hplan

-- A binary file made so far is new, or has been there and stays.
theorem made_came (h : w.Sound folder) (hproper : c.1.Proper w.drive)
    (hresult : w.drive.commit? c.1 c.2 = some result) (he : (w.step c).Made e') :
    (c.1.makesBinary = true ∧ e' = result.subject.entry) ∨
      ∃ e, w.Made e ∧ e.id ∉ c.1.departed result.subject ∧ e.Kept e' := by
  have hturn := turnover_of_some h hresult
  rw [step_of_some hresult] at he
  obtain ⟨hthere, hid, hbinary⟩ := he
  rcases hturn.came e' hthere with hnew | ⟨e, he, hgone, hkept⟩
  · obtain ⟨plan, hplan, rfl⟩ := Drive.commit?_eq_some_iff.mp hresult
    exact .inl (Change.makesBinary_of_newcomer hplan hnew hbinary)
  · refine .inr ⟨e, ⟨he, ?_, hkept.payload_eq ▸ hbinary⟩, hgone, hkept⟩
    rw [hkept.id_eq] at hid
    dsimp only at hid
    split at hid
    · next hmakes =>
        -- The new number is nowhere in the tree yet.
        have hlanded := landed_of_makesBinary h hproper hresult hmakes
        refine (List.mem_cons.mp hid).resolve_left fun hsame => hlanded.fresh ?_
        rw [← hsame]
        exact List.mem_map_of_mem he
    · exact hid

theorem made_subject (h : w.Sound folder) (hproper : c.1.Proper w.drive)
    (hresult : w.drive.commit? c.1 c.2 = some result) (hmakes : c.1.makesBinary = true) :
    (w.step c).Made result.subject.entry := by
  have hthere := (turnover_of_some h hresult).added result.subject.entry
  rw [Change.newcomers_of_makesBinary hmakes] at hthere
  rw [step_of_some hresult]
  refine ⟨hthere List.mem_cons_self, ?_, (landed_of_makesBinary h hproper hresult hmakes).binary⟩
  rw [if_pos hmakes]
  exact List.mem_cons_self

-- A file that stays is found again by the names that led to it.
theorem made_stays (h : w.Sound folder) (hresult : w.drive.commit? c.1 c.2 = some result)
    (he : w.Made e) (hgone : e.id ∉ c.1.departed result.subject) :
    ∃ x', result.drive.root.descend (Path.segments e.path) = some x' ∧ e.Kept x'.entry ∧
      (w.step c).Made x'.entry := by
  obtain ⟨-, x, hx, rfl⟩ := h.found e he
  obtain ⟨x', hx', hkept⟩ := (turnover_of_some h hresult).way hx hgone
  refine ⟨x', hx', hkept, ?_⟩
  rw [step_of_some hresult]
  refine ⟨Item.entry_mem_entries (Item.mem_walk_of_descend hx'), ?_, ?_⟩
  · rw [hkept.id_eq]
    dsimp only
    split
    · exact List.mem_cons_of_mem _ he.id
    · exact he.id
  · rw [hkept.payload_eq]
    exact he.binary

theorem sound_step (h : w.Sound folder) (hproper : c.1.Proper w.drive) :
    (w.step c).Sound folder := by
  cases hresult : w.drive.commit? c.1 c.2 with
  | none =>
      rw [step_of_none hresult]
      exact h
  | some result =>
      have hdrive : (w.step c).drive = result.drive := by rw [step_of_some hresult]
      have hwell := Drive.wellFormed_commit? h.wellFormed hproper.fresh hresult
      refine ⟨?_, hdrive ▸ hwell, fun e' he' => ?_⟩
      · obtain ⟨plan, -, rfl⟩ := Drive.commit?_eq_some_iff.mp hresult
        rw [hdrive]
        exact h.desktop
      · rw [hdrive]
        rcases made_came h hproper hresult he' with ⟨hmakes, rfl⟩ | ⟨e, he, hgone, hkept⟩
        · have hlanded := landed_of_makesBinary h hproper hresult hmakes
          exact ⟨hlanded.named, result.subject, hlanded.found, rfl⟩
        · obtain ⟨x', hx', hkept', -⟩ := made_stays h hresult he hgone
          have hthere := he'.there
          rw [hdrive] at hthere
          obtain ⟨y, hy, rfl⟩ := List.mem_map.mp hthere
          have hid : x'.id = y.id := hkept'.id_eq.trans hkept.id_eq.symm
          obtain rfl := hwell.eq_of_id (Item.mem_walk_of_descend hx') hy hid
          refine ⟨hkept.name_eq ▸ (h.found e he).1, x', ?_, rfl⟩
          rw [hkept.path_eq]
          exact hx'

-- Where the files made so far lie: where they lay, but for those that a deletion takes along, and
-- at the path of a new one.
theorem exists_made_step (h : w.Sound folder) (hproper : c.1.Proper w.drive)
    (hresult : w.drive.commit? c.1 c.2 = some result) :
    (∃ e, (w.step c).Made e ∧ e.path = p) ↔
      (c.1.makesBinary = true ∧ result.subject.path = p) ∨
        (∃ e, w.Made e ∧ e.path = p) ∧
          ¬(c.1.deletes = true ∧ Path.segments result.subject.path <+: Path.segments p) := by
  constructor
  · rintro ⟨e', he', rfl⟩
    rcases made_came h hproper hresult he' with ⟨hmakes, rfl⟩ | ⟨e, he, hgone, hkept⟩
    · exact .inl ⟨hmakes, rfl⟩
    · rw [mem_departed_iff h hresult he] at hgone
      rw [hkept.path_eq]
      exact .inr ⟨⟨e, he, rfl⟩, hgone⟩
  · rintro (⟨hmakes, rfl⟩ | ⟨⟨e, he, rfl⟩, hgone⟩)
    · exact ⟨_, made_subject h hproper hresult hmakes, rfl⟩
    · rw [← mem_departed_iff h hresult he] at hgone
      obtain ⟨x', -, hkept, hmade⟩ := made_stays h hresult he hgone
      exact ⟨_, hmade, hkept.path_eq⟩

theorem segments_subject_ne (h : w.Sound folder) (hproper : c.1.Proper w.drive)
    (hresult : w.drive.commit? c.1 c.2 = some result)
    (hc : c.1.makesBinary = true ∨ c.1.deletes = true) :
    Path.segments result.subject.path ≠ [] :=
  hc.elim (fun hmakes => (landed_of_makesBinary h hproper hresult hmakes).below)
    fun hdeletes => (subject_of_deletes h hresult hdeletes).1

-- What the desktop shows: what it showed, but for the file that a deletion is about, and a new one,
-- if they are right in its folder.
theorem mem_shown_step (h : w.Sound folder) (hproper : c.1.Proper w.drive)
    (hresult : w.drive.commit? c.1 c.2 = some result) :
    p ∈ (w.step c).shown ↔
      (c.1.makesBinary = true ∧ Within folder result.subject.path ∧ result.subject.path = p) ∨
        p ∈ w.shown ∧
          ¬(c.1.deletes = true ∧ Within folder result.subject.path ∧ result.subject.path = p) := by
  have hicon : result.icon = w.drive.icon? c.1 result.subject := by
    obtain ⟨plan, -, rfl⟩ := Drive.commit?_eq_some_iff.mp hresult
    rfl
  have hdesk (hc : c.1.makesBinary = true ∨ c.1.deletes = true) :
      w.drive.desktop = some (Path.parent result.subject.path) ↔
        Within folder result.subject.path := by
    rw [h.desktop, Option.some_inj, parent_eq_iff_within (segments_subject_ne h hproper hresult hc)]
  rw [step_of_some hresult, hicon]
  cases hchange : c.1 with
  | create what place name =>
      cases what with
      | binary payload =>
          have hdesk := hdesk (.inl (by rw [hchange]; rfl))
          by_cases hin : Within folder result.subject.path
          · simp [Drive.icon?, hdesk, hin, Icon.mark, Change.makesBinary, Change.deletes, @eq_comm _ p]
          · simp [Drive.icon?, hdesk, hin, Change.makesBinary, Change.deletes]
      | folder => simp [Drive.icon?, Change.makesBinary, Change.deletes]
      | text content => simp [Drive.icon?, Change.makesBinary, Change.deletes]
  | update path content => simp [Drive.icon?, Change.makesBinary, Change.deletes]
  | delete path =>
      have hdesk := hdesk (.inr (by rw [hchange]; rfl))
      by_cases hin : Within folder result.subject.path
      · simp [Drive.icon?, hdesk, hin, Icon.mark, Change.makesBinary, Change.deletes, @eq_comm _ p]
      · simp [Drive.icon?, hdesk, hin, Change.makesBinary, Change.deletes]

theorem live_step (h : w.Sound folder) (hproper : c.1.Proper w.drive)
    (hresult : w.drive.commit? c.1 c.2 = some result) :
    (w.step c).Live folder p ↔
      (c.1.makesBinary = true ∧ Within folder result.subject.path ∧ result.subject.path = p) ∨
        w.Live folder p ∧
          ¬(c.1.deletes = true ∧ Path.segments result.subject.path <+: Path.segments p) := by
  rw [live_iff (sound_step h hproper), live_iff h, exists_made_step h hproper hresult]
  constructor
  · rintro ⟨⟨hmakes, rfl⟩ | ⟨hmade, hstays⟩, hin⟩
    · exact .inl ⟨hmakes, hin, rfl⟩
    · exact .inr ⟨⟨hmade, hin⟩, hstays⟩
  · rintro (⟨hmakes, hin, rfl⟩ | ⟨⟨hmade, hin⟩, hstays⟩)
    · exact ⟨.inl ⟨hmakes, rfl⟩, hin⟩
    · exact ⟨.inr ⟨hmade, hstays⟩, hin⟩

-- A deletion that takes a live file along is about that file, or about the folder or one above it.
theorem sweeps_or_eq (h : w.Sound folder) (hresult : w.drive.commit? c.1 c.2 = some result)
    (hdeletes : c.1.deletes = true) (hlive : w.Live folder p)
    (hbelow : Path.segments result.subject.path <+: Path.segments p) :
    w.Sweeps folder c ∨ Within folder result.subject.path ∧ result.subject.path = p := by
  obtain ⟨⟨e, he, rfl⟩, name, hname⟩ := (live_iff h).mp hlive
  rw [hname, List.prefix_concat_iff] at hbelow
  rcases hbelow with hsame | habove
  · refine .inr ⟨⟨name, hsame⟩, ?_⟩
    obtain ⟨-, x, hx, rfl⟩ := h.found e he
    obtain ⟨-, hsubject⟩ := subject_of_deletes h hresult hdeletes
    rw [hname, ← hsame, hsubject] at hx
    rw [Option.some.inj hx]
  · exact .inl ⟨result, _, hresult, hdeletes, habove, hlive⟩

theorem shown_of_live_step (h : w.Sound folder) (hproper : c.1.Proper w.drive)
    (hshown : ∀ p, w.Live folder p → p ∈ w.shown) (hlive : (w.step c).Live folder p) :
    p ∈ (w.step c).shown := by
  cases hresult : w.drive.commit? c.1 c.2 with
  | none =>
      rw [step_of_none hresult] at hlive ⊢
      exact hshown p hlive
  | some result =>
      rw [mem_shown_step h hproper hresult]
      rcases (live_step h hproper hresult).mp hlive with hnew | ⟨hold, hstays⟩
      · exact .inl hnew
      · refine .inr ⟨hshown p hold, fun ⟨hdeletes, _, hpath⟩ => hstays ⟨hdeletes, ?_⟩⟩
        rw [hpath]

-- After a change a desktop shows the right files still unless the change swept some away.
theorem faithful_step_iff (h : w.Sound folder) (hproper : c.1.Proper w.drive)
    (hfaithful : w.Faithful folder) :
    (w.step c).Faithful folder ↔ ¬w.Sweeps folder c := by
  constructor
  · rintro hafter ⟨result, p, hresult, hdeletes, habove, hlive⟩
    obtain ⟨-, name, hname⟩ := (live_iff h).mp hlive
    have hmakes : c.1.makesBinary ≠ true := by
      intro hmakes
      obtain ⟨payload, place, name, hchange⟩ := Change.makesBinary_iff.mp hmakes
      simp [hchange, Change.deletes] at hdeletes
    have hshown : p ∈ (w.step c).shown := by
      rw [mem_shown_step h hproper hresult]
      refine .inr ⟨(hfaithful p).mpr hlive, fun ⟨_, _, hpath⟩ => ?_⟩
      -- The folder's path is shorter than that of the file.
      have hlength := habove.length_le
      rw [hpath, hname, List.length_append, List.length_singleton] at hlength
      omega
    rcases (live_step h hproper hresult).mp ((hafter p).mp hshown) with ⟨hnew, -⟩ | ⟨-, hstays⟩
    · exact hmakes hnew
    · refine hstays ⟨hdeletes, habove.trans ?_⟩
      rw [hname]
      exact List.prefix_append _ _
  · intro hspares p
    refine ⟨fun hshown => ?_, shown_of_live_step h hproper fun p => (hfaithful p).mpr⟩
    cases hresult : w.drive.commit? c.1 c.2 with
    | none =>
        rw [step_of_none hresult] at hshown ⊢
        exact (hfaithful p).mp hshown
    | some result =>
        rw [live_step h hproper hresult]
        rcases (mem_shown_step h hproper hresult).mp hshown with hnew | ⟨hold, hkeeps⟩
        · exact .inl hnew
        · have hlive := (hfaithful p).mp hold
          refine .inr ⟨hlive, fun ⟨hdeletes, hbelow⟩ => ?_⟩
          rcases sweeps_or_eq h hresult hdeletes hlive hbelow with hsweeps | hsame
          · exact hspares hsweeps
          · exact hkeeps ⟨hdeletes, hsame⟩

end Step

-- Every change of a run is a proper one.
def Orderly (w : Watch) : List (Change × Moment) → Prop
  | [] => True
  | c :: rest => c.1.Proper w.drive ∧ (w.step c).Orderly rest

instance decidableOrderly (w : Watch) (changes : List (Change × Moment)) :
    Decidable (w.Orderly changes) :=
  match changes with
  | [] => .isTrue trivial
  | c :: rest =>
      have := decidableOrderly (w.step c) rest
      inferInstanceAs (Decidable (c.1.Proper w.drive ∧ (w.step c).Orderly rest))

-- Some deletion of a run takes the folder away, or one above it, with a live file in it.
def Swept (w : Watch) (folder : String) : List (Change × Moment) → Prop
  | [] => False
  | c :: rest => w.Sweeps folder c ∨ (w.step c).Swept folder rest

section Run

variable {w : Watch} {folder : String} {changes : List (Change × Moment)} {d : Drive}

-- At every moment of a run.
theorem forall_run_cons (P : Watch → Prop) {c : Change × Moment} :
    (∀ front, front <+: c :: changes → P (w.run front)) ↔
      P w ∧ ∀ front, front <+: changes → P ((w.step c).run front) := by
  constructor
  · intro h
    exact ⟨h [] List.nil_prefix, fun front hfront => h (c :: front) ((List.prefix_cons_inj c).mpr hfront)⟩
  · rintro ⟨hfirst, hrest⟩ front hfront
    rcases List.prefix_cons_iff.mp hfront with rfl | ⟨tail, rfl, htail⟩
    · exact hfirst
    · exact hrest tail htail

theorem sound_start (hr : d.root.WellFormed) (folder : String) : (start d folder).Sound folder :=
  ⟨rfl, hr, fun _ he => absurd he.id List.not_mem_nil⟩

theorem faithful_start (d : Drive) (folder : String) : (start d folder).Faithful folder := by
  refine fun p => iff_of_false List.not_mem_nil ?_
  rintro ⟨f, x, -, -, hid, -⟩
  exact List.not_mem_nil hid

-- Whatever happens, no live file goes without its icon.
theorem shown_of_live_run (h : w.Sound folder) (horderly : w.Orderly changes)
    (hshown : ∀ p, w.Live folder p → p ∈ w.shown) :
    ∀ front, front <+: changes → ∀ p, (w.run front).Live folder p → p ∈ (w.run front).shown := by
  induction changes generalizing w with
  | nil =>
      intro front hfront
      rw [List.prefix_nil.mp hfront]
      exact hshown
  | cons c rest ih =>
      obtain ⟨hproper, hrest⟩ := horderly
      have hafter := ih (sound_step h hproper) hrest fun p => shown_of_live_step h hproper hshown
      exact (forall_run_cons fun w => ∀ p, w.Live folder p → p ∈ w.shown).mpr ⟨hshown, hafter⟩

theorem faithful_run_iff (h : w.Sound folder) (horderly : w.Orderly changes)
    (hfaithful : w.Faithful folder) :
    (∀ front, front <+: changes → (w.run front).Faithful folder) ↔ ¬w.Swept folder changes := by
  induction changes generalizing w with
  | nil =>
      refine iff_of_true (fun front hfront => ?_) id
      rw [List.prefix_nil.mp hfront]
      exact hfaithful
  | cons c rest ih =>
      obtain ⟨hproper, hrest⟩ := horderly
      have hstep := faithful_step_iff h hproper hfaithful
      rw [forall_run_cons (·.Faithful folder), and_iff_right hfaithful, Swept, not_or]
      constructor
      · intro hall
        have hafter : (w.step c).Faithful folder := hall [] List.nil_prefix
        exact ⟨hstep.mp hafter, (ih (sound_step h hproper) hrest hafter).mp hall⟩
      · rintro ⟨hspares, hspared⟩
        exact (ih (sound_step h hproper) hrest (hstep.mpr hspares)).mpr hspared

-- A desktop that hears of the changes of a drive shows at every moment all the binary files made
-- meanwhile that are in its folder. It shows no others as long as no deletion takes the folder
-- itself, or one above it, away from under such a file.
theorem shows_live_run (hr : d.root.WellFormed) (folder : String)
    (horderly : (start d folder).Orderly changes) :
    (∀ front, front <+: changes → ∀ p, ((start d folder).run front).Live folder p →
        p ∈ ((start d folder).run front).shown) ∧
      ((∀ front, front <+: changes → ∀ p, p ∈ ((start d folder).run front).shown ↔
          ((start d folder).run front).Live folder p) ↔
        ¬(start d folder).Swept folder changes) := by
  have h := sound_start hr folder
  have hfaithful := faithful_start d folder
  exact ⟨shown_of_live_run h horderly fun p => (hfaithful p).mpr,
    faithful_run_iff h horderly hfaithful⟩

-- An empty drive whose desktop is to be a folder that is not there yet.
def bare : Watch :=
  start (.empty .epoch 1) "/a"

-- Two files are put on the desktop, and one of them is deleted.
def tidied : List (Change × Moment) :=
  [ (.create .folder "/" "a", .epoch), (.create (.binary [1]) "/a" "x.bin", .epoch),
    (.create (.binary [2]) "/a" "y.bin", .epoch), (.delete "/a/x.bin", .epoch) ]

theorem shows_live_run_tidied :
    (Drive.empty .epoch 1).root.WellFormed ∧ bare.Orderly tidied ∧
      (bare.run tidied).shown = ["/a/y.bin"] ∧
      ∀ front, front <+: tidied → ∀ p, p ∈ (bare.run front).shown ↔
        (bare.run front).Live "/a" p := by
  have horderly : bare.Orderly tidied := by decide +kernel
  have hspared : ¬bare.Swept "/a" tidied := by
    rintro (⟨_, _, _, ⟨⟩, _⟩ | ⟨_, _, _, ⟨⟩, _⟩ | ⟨_, _, _, ⟨⟩, _⟩ | h | h)
    · obtain ⟨result, -, hresult, -, habove, -⟩ := h
      have hsubject := congrArg (Option.map (Path.segments ·.subject.path)) hresult
      have hpath : Path.segments result.subject.path = ["a", "x.bin"] :=
        Option.some.inj (hsubject.symm.trans (by decide +kernel))
      rw [hpath] at habove
      exact absurd habove (by decide +kernel)
    · exact h
  refine ⟨Drive.wellFormed_empty .epoch 1, horderly, by decide +kernel, ?_⟩
  exact (shows_live_run (Drive.wellFormed_empty .epoch 1) "/a" horderly).2.mpr hspared

-- A file is put on the desktop, and the desktop's folder is deleted.
def razed : List (Change × Moment) :=
  [ (.create .folder "/" "a", .epoch), (.create (.binary [1]) "/a" "x.bin", .epoch),
    (.delete "/a", .epoch) ]

-- The icon of the file stays.
theorem not_shows_live_razed :
    (Drive.empty .epoch 1).root.WellFormed ∧ bare.Orderly razed ∧
      "/a/x.bin" ∈ (bare.run razed).shown ∧
      ¬(bare.run razed).Live "/a" "/a/x.bin" := by
  refine ⟨Drive.wellFormed_empty .epoch 1, by decide +kernel, by decide +kernel, ?_⟩
  rintro ⟨f, -, hf, -⟩
  have hgone : (bare.run razed).drive.root.descend (Path.segments "/a") = none := by
    decide +kernel
  rw [hgone] at hf
  cases hf

end Run

end Watch

end DesktopShell

import DesktopShell.Proofs.Drive.Stock
import DesktopShell.Proofs.Shared.Create

namespace DesktopShell

instance (parts : List String) : Decidable (Path.IsDirect parts) :=
  inferInstanceAs (Decidable (∀ first ∈ parts.head?, Path.shortcut? ("/" ++ first) = none))

def Ending.isDone : Ending → Bool
  | .done _ => true
  | .failed _ | .crashed => false

namespace Making

def Event.who : Event → Nat
  | .checked who | .made who => who

-- Who passes the check: anybody where the path of the folder leads elsewhere, and else who is early.
structure Timely (place : String) (folder : Item) (log : List Event) (who : Nat) : Prop where
  allowed : Order.Allowed place
  early : Path.IsDirect (Path.segments folder.path) → Early log who

-- How a session stands that is to make an item at `place`, which is in `folder`, whose path leads to a
-- folder or not.
inductive Stands (place : String) (folder : Item) (leads : Prop) (d : Drive) (log : List Event)
    (who : Nat) (what : NewItem) : Order.Stage → Prop
  | fresh (unchecked : .checked who ∉ log) (unmade : who ∉ winners log) :
      Stands place folder leads d log who what .fresh
  | vetted {lost : Failure} {party : Shared.Party} (timely : Timely place folder log who)
      (unmade : who ∉ winners log)
      (pursues : party.Pursues d what folder.path (Path.fileName place) leads) :
      Stands place folder leads d log who what (.vetted lost party)
  | done {outcome : Outcome} (timely : Timely place folder log who) (there : leads)
      (made : who ∈ winners log) : Stands place folder leads d log who what (.ended (.done outcome))
  | failed {failure : Failure} (late : ¬(Timely place folder log who ∧ leads))
      (taken : Order.Allowed place → leads → winners log ≠ []) (unmade : who ∉ winners log) :
      Stands place folder leads d log who what (.ended (.failed failure))

-- The folder at a place with the items made there so far.
def Holds (place : String) (folder : Item) (d : Drive) (made : Nat) : Prop :=
  ∃ x, d.find? (Path.parent place) = some x ∧ x.isFolder = true ∧ x.path = folder.path ∧
    x.named (Path.fileName place) = if Path.IsDirect (Path.segments folder.path) then made else 0

section Turn

variable {place : String} {folder : Item} {leads : Prop} {d d' : Drive} {log more : List Event}
  {who : Nat} {what : NewItem} {stage : Order.Stage}

theorem not_mem_winners (hmore : ∀ e ∈ more, e.who ≠ who) (h : who ∉ winners log) :
    who ∉ winners (log ++ more) := by
  rw [winners_append, List.mem_append, not_or]
  refine ⟨h, fun hin => ?_⟩
  obtain ⟨e, he, hmade⟩ := List.mem_filterMap.mp hin
  cases e with
  | checked other => cases hmade
  | made other => exact hmore _ he (Option.some.inj hmade)

theorem timely_append (hmore : .checked who ∉ more) :
    Timely place folder (log ++ more) who ↔ Timely place folder log who := by
  constructor
  · exact fun h => ⟨h.allowed, fun hdirect => (early_append hmore).mp (h.early hdirect)⟩
  · exact fun h => ⟨h.allowed, fun hdirect => (early_append hmore).mpr (h.early hdirect)⟩

-- What the others do makes no difference to that.
theorem Stands.later (h : Stands place folder leads d log who what stage)
    (hd : d'.sight = d.sight ∨ d'.revision = d.revision + 1) (hmore : ∀ e ∈ more, e.who ≠ who) :
    Stands place folder leads d' (log ++ more) who what stage := by
  have hunchecked : .checked who ∉ more := fun hin => hmore _ hin rfl
  have hsame : Timely place folder (log ++ more) who ↔ Timely place folder log who :=
    timely_append hunchecked
  cases h with
  | fresh unchecked unmade =>
      refine .fresh ?_ (not_mem_winners hmore unmade)
      rw [List.mem_append, not_or]
      exact ⟨unchecked, hunchecked⟩
  | vetted timely unmade pursues =>
      exact .vetted (hsame.mpr timely) (not_mem_winners hmore unmade) (pursues.later hd)
  | done timely there made =>
      refine .done (hsame.mpr timely) there ?_
      rw [winners_append]
      exact List.mem_append_left _ made
  | failed late taken unmade =>
      refine .failed (fun h => late (h.imp_left hsame.mp)) (fun hallowed hleads hnone => ?_)
        (not_mem_winners hmore unmade)
      rw [winners_append] at hnone
      exact taken hallowed hleads (List.append_eq_nil_iff.mp hnone).1

section Made

variable {stamp : Stamp} {plan : Plan} (hr : d.root.Grounded)
  (hplan : (Change.create what folder.path (Path.fileName place)).plan? d.root stamp = some plan)

include hr hplan

-- One more item where it belongs.
theorem Holds.made {made : Nat} (h : Holds place folder d made) (hd : d'.root = plan.root) :
    Holds place folder d' (made + 1) := by
  obtain ⟨x, hfind, hfolder, hpath, hcount⟩ := h
  obtain ⟨x', hfind', hpath', hfolder', hcount'⟩ := Change.find?_created hr hplan hfind
  have hfound : d'.find? (Path.parent place) = some x' := by
    rw [Drive.find?, hd]
    exact hfind'
  refine ⟨x', hfound, hfolder'.trans hfolder, hpath'.trans hpath, ?_⟩
  have hroute : Path.route (Path.parent place) = Path.segments folder.path := by
    rw [← hpath]
    exact (hr.segments_path hfind).symm
  rw [hcount', hcount, hroute, Path.route_eq folder.path]
  by_cases hdirect : Path.IsDirect (Path.segments folder.path)
  · rw [if_pos hdirect, if_pos hdirect, Path.expand_of_isDirect hdirect, if_pos rfl]
  · rw [if_neg hdirect, if_neg hdirect, if_neg (Path.expand_ne hdirect).symm]

theorem leads_of_made : d.root.Leads folder.path ∧ plan.root.Leads folder.path := by
  obtain ⟨x, hx, hfolder⟩ := (Change.exists_plan?_create_iff hr).mp ⟨plan, hplan⟩
  obtain ⟨x', hx', -, hfolder', -⟩ := Change.find?_created hr hplan hx
  exact ⟨⟨x, hx, hfolder⟩, x', hx', hfolder'.trans hfolder⟩

end Made

-- What comes of a turn of a session: it stands where it should, and the tree is what it was, or the
-- item was made on it.
structure Moves (place : String) (folder : Item) (leads : Prop) (d : Drive) (log : List Event)
    (who : Nat) (m : Maker) (t : Turn) : Prop where
  order : t.maker.order = m.order
  stands : Stands place folder leads t.drive (log ++ t.event.toList) who m.order.what t.maker.stage
  own : ∀ e ∈ t.event.toList, e.who = who
  tree : (t.drive.sight = d.sight ∧ winners t.event.toList = []) ∨
    ∃ plan stamp, (Change.create m.order.what folder.path (Path.fileName place)).plan? d.root stamp =
        some plan ∧
      t.drive.sight = ⟨plan.root, d.revision + 1⟩ ∧ t.event = some (.made who) ∧ who ∉ winners log

variable {o : Order}

-- The check passes exactly as long as no item stands in the way.
theorem moves_fresh (hholds : Holds place folder d (winners log).length) (haims : o.Aims place)
    (unchecked : .checked who ∉ log) (unmade : who ∉ winners log) (now : Moment) :
    Moves place folder leads d log who ⟨o, .fresh⟩ (Maker.turn who now d ⟨o, .fresh⟩) := by
  obtain ⟨x, hfind, hfolder, hpath, hcount⟩ := hholds
  have hfree : x.named (Path.fileName place) = 0 ↔
      (Path.IsDirect (Path.segments folder.path) → Early (log ++ [.checked who]) who) := by
    rw [hcount, early_checked unchecked]
    by_cases hdirect : Path.IsDirect (Path.segments folder.path) <;> simp [hdirect]
  have hunmade : who ∉ winners (log ++ [.checked who]) := by
    rw [winners_append]
    simpa [winners, Event.made?] using unmade
  refine ⟨rfl, ?_, by simp [Maker.turn, Event.who], .inl ⟨rfl, rfl⟩⟩
  rcases Order.vet_cases haims hfind hfolder with ⟨lost, hvet, hallowed, hnone⟩ |
    ⟨failure, hvet, hrefused⟩
  · rw [hpath] at hvet
    simp only [Maker.turn, hvet]
    exact .vetted ⟨hallowed, hfree.mp hnone⟩ hunmade ⟨rfl, rfl, trivial⟩
  · simp only [Maker.turn, hvet]
    refine .failed (fun h => hrefused ⟨h.1.allowed, hfree.mpr h.1.early⟩)
      (fun hallowed _ hnone => ?_) hunmade
    rw [winners_append] at hnone
    refine hrefused ⟨hallowed, ?_⟩
    rw [hcount, (List.append_eq_nil_iff.mp hnone).1]
    exact ite_self 0

theorem moves_vetted (hr : d.root.Grounded) (hleads : d.root.Leads folder.path ↔ leads)
    {lost : Failure} {party : Shared.Party} (timely : Timely place folder log who)
    (unmade : who ∉ winners log)
    (pursues : party.Pursues d o.what folder.path (Path.fileName place) leads) (now : Moment) :
    Moves place folder leads d log who ⟨o, .vetted lost party⟩
      (Maker.turn who now d ⟨o, .vetted lost party⟩) := by
  have hstage : (Maker.turn who now d ⟨o, .vetted lost party⟩).maker.stage =
    o.settle lost (party.turn who now d).party := rfl
  have hevent : (Maker.turn who now d ⟨o, .vetted lost party⟩).event =
    if (party.turn who now d).note.any Shared.Note.publishes then some (.made who) else none := rfl
  rcases pursues.turn_cases hr hleads who now with ⟨hsight, hquiet, hcase⟩ |
    ⟨plan, stamp, hplan, hsight, hdone, hpublished⟩
  · have hnone : (Maker.turn who now d ⟨o, .vetted lost party⟩).event = none := by
      rw [hevent, hquiet]
      rfl
    refine ⟨rfl, ?_, by simp [hnone], .inl ⟨hsight, by rw [hnone]; rfl⟩⟩
    rw [hstage, hnone, Option.toList_none, List.append_nil]
    rcases hcase with hpursues | ⟨hnowhere, hdone⟩
    · rw [Order.settle, hpursues.done]
      exact .vetted timely unmade hpursues
    · rw [Order.settle, hdone]
      exact .failed (fun h => hnowhere h.2) (fun _ h => absurd h hnowhere) unmade
  · have hthere : leads := hleads.mp (leads_of_made hr hplan).1
    have htimely : Timely place folder (log ++ [.made who]) who :=
      (timely_append (by simp)).mpr timely
    rw [if_pos hpublished] at hevent
    refine ⟨rfl, ?_, by simp [hevent, Event.who], .inr ⟨plan, stamp, hplan, hsight, hevent, unmade⟩⟩
    rw [hstage, hevent, Order.settle, hdone]
    exact .done htimely hthere (by simp [winners, Event.made?])

theorem moves_ended {ending : Ending}
    (h : Stands place folder leads d log who o.what (.ended ending)) (now : Moment) :
    Moves place folder leads d log who ⟨o, .ended ending⟩
      (Maker.turn who now d ⟨o, .ended ending⟩) :=
  ⟨rfl, by simpa [Maker.turn] using h, by simp [Maker.turn], .inl ⟨rfl, rfl⟩⟩

end Turn

-- What holds between any two turns.
structure Invariant (place : String) (folder : Item) (leads : Prop) (n : Nat) (s : Making) : Prop where
  length : s.makers.length = n
  grounded : s.drive.root.Grounded
  leads_iff : s.drive.root.Leads folder.path ↔ leads
  holds : Holds place folder s.drive (winners s.log).length
  once : (winners s.log).Nodup
  known : ∀ who ∈ winners s.log, who < n
  stands : ∀ (who : Nat) (m : Maker), s.makers[who]? = some m →
    m.order.Aims place ∧ Stands place folder leads s.drive s.log who m.order.what m.stage

section Run

variable {place : String} {folder : Item} {leads : Prop} {n : Nat} {s : Making} {who : Nat} {m : Maker}

theorem Invariant.moves (h : Invariant place folder leads n s) (hm : s.makers[who]? = some m)
    (now : Moment) : Moves place folder leads s.drive s.log who m (m.turn who now s.drive) := by
  obtain ⟨haims, hstands⟩ := h.stands who m hm
  obtain ⟨order, stage⟩ := m
  cases stage with
  | fresh =>
      cases hstands with
      | fresh unchecked unmade =>
          exact moves_fresh h.holds haims unchecked unmade now
  | vetted lost party =>
      cases hstands with
      | vetted timely unmade pursues =>
          exact moves_vetted h.grounded h.leads_iff timely unmade pursues now
  | ended ending => exact moves_ended hstands now

theorem step_eq (hm : s.makers[who]? = some m) (now : Moment) :
    s.step who now =
      { drive := (m.turn who now s.drive).drive
        makers := s.makers.set who (m.turn who now s.drive).maker
        log := s.log ++ (m.turn who now s.drive).event.toList } := by
  rw [Making.step, hm]

theorem Invariant.stands_step (h : Invariant place folder leads n s) (hm : s.makers[who]? = some m)
    (now : Moment) (other : Nat) (m' : Maker) (hm' : (s.step who now).makers[other]? = some m') :
    m'.order.Aims place ∧
      Stands place folder leads (s.step who now).drive (s.step who now).log other m'.order.what
        m'.stage := by
  have hmoves := h.moves hm now
  rw [step_eq hm] at hm' ⊢
  by_cases hother : who = other
  · subst hother
    rw [List.getElem?_set_self', hm] at hm'
    obtain rfl : (m.turn who now s.drive).maker = m' := Option.some.inj hm'
    rw [hmoves.order]
    exact ⟨(h.stands who m hm).1, hmoves.stands⟩
  · have hm' : s.makers[other]? = some m' := (List.getElem?_set_ne hother).symm.trans hm'
    obtain ⟨haims, hstands⟩ := h.stands other m' hm'
    refine ⟨haims, hstands.later ?_ fun e he => hmoves.own e he ▸ hother⟩
    rcases hmoves.tree with ⟨hsight, -⟩ | ⟨plan, stamp, -, hsight, -⟩
    · exact .inl hsight
    · exact .inr (congrArg Sight.revision hsight)

theorem Invariant.step (h : Invariant place folder leads n s) (who : Nat) (now : Moment) :
    Invariant place folder leads n (s.step who now) := by
  cases hm : s.makers[who]? with
  | none =>
      have hsame : s.step who now = s := by rw [Making.step, hm]
      rwa [hsame]
  | some m =>
      have hstands := h.stands_step hm now
      have hlength : (s.step who now).makers.length = n := by
        rw [step_eq hm, List.length_set]
        exact h.length
      rcases (h.moves hm now).tree with ⟨hsight, hnone⟩ | ⟨plan, stamp, hplan, hsight, hevent, hnew⟩
      · have hroot : (s.step who now).drive.root = s.drive.root := by
          rw [step_eq hm]
          exact congrArg Sight.root hsight
        have hsame : winners (s.step who now).log = winners s.log := by
          rw [step_eq hm, winners_append, hnone, List.append_nil]
        refine ⟨hlength, hroot ▸ h.grounded, hroot ▸ h.leads_iff, ?_, hsame ▸ h.once,
          hsame ▸ h.known, hstands⟩
        rw [hsame]
        unfold Holds Drive.find?
        rw [hroot]
        exact h.holds
      · have hroot : (s.step who now).drive.root = plan.root := by
          rw [step_eq hm]
          exact congrArg Sight.root hsight
        have hmore : winners (s.step who now).log = winners s.log ++ [who] := by
          rw [step_eq hm, winners_append, hevent]
          rfl
        have hwho : who < n := h.length ▸ (List.getElem?_eq_some_iff.mp hm).1
        obtain ⟨hbefore, hafter⟩ := leads_of_made h.grounded hplan
        refine ⟨hlength, ?_, ?_, ?_, ?_, ?_, hstands⟩
        · rw [hroot]
          exact Change.grounded_plan? h.grounded hplan
        · rw [hroot]
          exact iff_of_true hafter (h.leads_iff.mp hbefore)
        · rw [hmore, List.length_append]
          exact h.holds.made h.grounded hplan hroot
        · rw [hmore]
          exact List.nodup_append.mpr
            ⟨h.once, by simp, fun a ha b hb he => hnew (List.mem_singleton.mp hb ▸ he ▸ ha)⟩
        · rw [hmore]
          intro other hother
          rcases List.mem_append.mp hother with hin | hin
          · exact h.known other hin
          · rw [List.mem_singleton.mp hin]
            exact hwho

theorem Invariant.run (h : Invariant place folder leads n s) (schedule : List (Nat × Moment)) :
    Invariant place folder leads n (s.run schedule) := by
  induction schedule generalizing s with
  | nil => exact h
  | cons turn rest ih => exact ih (h.step turn.1 turn.2)

theorem invariant_start {d : Drive} (hr : d.root.Grounded)
    (hfind : d.find? (Path.parent place) = some folder) (hfolder : folder.isFolder = true)
    (hfree : folder.child? (Path.fileName place) = none) {orders : List Order}
    (haims : ∀ o ∈ orders, o.Aims place) :
    Invariant place folder (d.root.Leads folder.path) orders.length (start d orders) where
  length := List.length_map _
  grounded := hr
  leads_iff := .rfl
  holds := ⟨folder, hfind, hfolder, rfl, (Item.named_eq_zero_iff.mpr hfree).trans (ite_self 0).symm⟩
  once := List.nodup_nil
  known who h := by cases h
  stands who m hm := by
    rw [start, List.getElem?_map, Option.map_eq_some_iff] at hm
    obtain ⟨o, ho, rfl⟩ := hm
    exact ⟨haims o (List.mem_of_getElem? ho), .fresh List.not_mem_nil List.not_mem_nil⟩

end Run

-- How the call of a session has ended, if it has.
def ending? (s : Making) (who : Nat) : Option Ending :=
  s.makers[who]?.bind fun m =>
    match m.stage with
    | .ended ending => some ending
    | .fresh | .vetted .. => none

def Through (s : Making) (who : Nat) : Prop :=
  (s.ending? who).isSome = true

instance (s : Making) (who : Nat) : Decidable (s.Through who) :=
  inferInstanceAs (Decidable (_ = true))

def Succeeds (s : Making) (who : Nat) : Prop :=
  (s.ending? who).any Ending.isDone = true

instance (s : Making) (who : Nat) : Decidable (s.Succeeds who) :=
  inferInstanceAs (Decidable (_ = true))

theorem succeeds_iff_exists {s : Making} {who : Nat} :
    s.Succeeds who ↔ ∃ outcome, s.ending? who = some (.done outcome) := by
  unfold Succeeds
  constructor
  · intro h
    obtain ⟨ending, hending, hdone⟩ := Option.any_eq_true _ _ |>.mp h
    cases ending with
    | done outcome => exact ⟨outcome, hending⟩
    | failed | crashed => cases hdone
  · rintro ⟨outcome, hending⟩
    rw [hending]
    rfl

theorem Succeeds.through {s : Making} {who : Nat} (h : s.Succeeds who) : s.Through who := by
  obtain ⟨outcome, hending⟩ := succeeds_iff_exists.mp h
  exact Option.isSome_iff_exists.mpr ⟨_, hending⟩

theorem exists_ended {s : Making} {who : Nat} {ending : Ending} (h : s.ending? who = some ending) :
    ∃ m, s.makers[who]? = some m ∧ m.stage = .ended ending := by
  obtain ⟨⟨order, stage⟩, hm, hstage⟩ := Option.bind_eq_some_iff.mp h
  cases stage with
  | fresh | vetted => cases hstage
  | ended => exact ⟨_, hm, congrArg _ (Option.some.inj hstage)⟩

section Invariant

variable {place : String} {folder : Item} {leads : Prop} {n : Nat} {s : Making} {who : Nat}
  (h : Invariant place folder leads n s)

include h

theorem Invariant.stands_ended {ending : Ending} (hending : s.ending? who = some ending) :
    ∃ what, Stands place folder leads s.drive s.log who what (.ended ending) := by
  obtain ⟨m, hm, hstage⟩ := exists_ended hending
  exact ⟨m.order.what, hstage ▸ (h.stands who m hm).2⟩

theorem Invariant.lt_of_through (hthrough : s.Through who) : who < n := by
  obtain ⟨ending, hending⟩ := Option.isSome_iff_exists.mp hthrough
  obtain ⟨m, hm, -⟩ := exists_ended hending
  exact h.length ▸ (List.getElem?_eq_some_iff.mp hm).1

theorem Invariant.mem_winners_iff : who ∈ winners s.log ↔ s.Succeeds who := by
  rw [succeeds_iff_exists]
  constructor
  · intro hwho
    have hlt : who < s.makers.length := h.length ▸ h.known who hwho
    obtain ⟨-, hstands⟩ := h.stands who _ (List.getElem?_eq_getElem hlt)
    cases hstage : s.makers[who].stage with
    | fresh =>
        rw [hstage] at hstands
        cases hstands with
        | fresh unchecked unmade => exact absurd hwho unmade
    | vetted lost party =>
        rw [hstage] at hstands
        cases hstands with
        | vetted timely unmade => exact absurd hwho unmade
    | ended ending =>
        rw [hstage] at hstands
        cases hstands with
        | @done outcome => exact ⟨outcome, by simp [ending?, List.getElem?_eq_getElem hlt, hstage]⟩
        | failed late taken unmade => exact absurd hwho unmade
  · rintro ⟨outcome, hending⟩
    obtain ⟨what, hstands⟩ := h.stands_ended hending
    cases hstands with
    | done timely there made => exact made

theorem Invariant.succeeds_iff (hthrough : s.Through who) :
    s.Succeeds who ↔ Timely place folder s.log who ∧ leads := by
  rw [succeeds_iff_exists]
  obtain ⟨ending, hending⟩ := Option.isSome_iff_exists.mp hthrough
  obtain ⟨what, hstands⟩ := h.stands_ended hending
  cases hstands with
  | @done outcome timely there => exact iff_of_true ⟨outcome, hending⟩ ⟨timely, there⟩
  | failed late =>
      refine iff_of_false ?_ late
      rintro ⟨outcome, hdone⟩
      cases hending.symm.trans hdone

-- Once a session is through, somebody has made the item, if anybody may.
theorem Invariant.winners_ne_nil (hthrough : s.Through who) (hallowed : Order.Allowed place)
    (hleads : leads) : winners s.log ≠ [] := by
  obtain ⟨ending, hending⟩ := Option.isSome_iff_exists.mp hthrough
  obtain ⟨what, hstands⟩ := h.stands_ended hending
  cases hstands with
  | done timely there made => exact List.ne_nil_of_mem made
  | failed late taken => exact taken hallowed hleads

-- Where the path leads to the folder itself, those who succeed are those who check in time.
theorem Invariant.alone_iff (hthrough : ∀ who < n, s.Through who)
    (hallowed : Order.Allowed place) (hdirect : Path.IsDirect (Path.segments folder.path))
    (hleads : leads) :
    (∀ i j, s.Succeeds i → s.Succeeds j → i = j) ↔
      ∀ i < n, ∀ j < n, Early s.log i → Early s.log j → i = j := by
  have hwins (i : Nat) (hi : i < n) : s.Succeeds i ↔ Early s.log i :=
    (h.succeeds_iff (hthrough i hi)).trans
      ⟨fun ⟨htimely, _⟩ => htimely.early hdirect, fun hearly => ⟨⟨hallowed, fun _ => hearly⟩, hleads⟩⟩
  constructor
  · intro hone i hi j hj hearly hearly'
    exact hone i j ((hwins i hi).mpr hearly) ((hwins j hj).mpr hearly')
  · intro honly i j hsucceeds hsucceeds'
    have hi := h.lt_of_through hsucceeds.through
    have hj := h.lt_of_through hsucceeds'.through
    exact honly i hi j hj ((hwins i hi).mp hsucceeds) ((hwins j hj).mp hsucceeds')

theorem Invariant.length_winners (hone : ∀ i j, s.Succeeds i → s.Succeeds j → i = j)
    (hsome : winners s.log ≠ []) : (winners s.log).length = 1 := by
  obtain ⟨first, rest, hwinners⟩ := List.exists_cons_of_ne_nil hsome
  have hwon : ∀ who ∈ winners s.log, who = first := fun who hwho =>
    hone who first (h.mem_winners_iff.mp hwho) (h.mem_winners_iff.mp (by simp [hwinners]))
  have hsame := List.eq_replicate_of_mem hwon
  have honce := h.once
  rw [hsame, List.nodup_replicate] at honce
  have hpos := List.length_pos_of_ne_nil hsome
  omega

end Invariant

-- Sessions want to make an item of one new name in one folder, and take turns in any order. Those
-- succeed that check the name before the first item is published, and each leaves an item of its own
-- there, unless the path of the folder leads elsewhere: then all succeed, as long as it leads to a
-- folder, and leave none. So not more than one succeeds and its item is the only one exactly if all
-- others check afterwards.
theorem succeeds_run {d : Drive} (hr : d.root.WellFormed) {place : String} {folder : Item}
    (hfind : d.find? (Path.parent place) = some folder) (hfolder : folder.isFolder = true)
    (hfree : folder.child? (Path.fileName place) = none) {orders : List Order}
    (haims : ∀ o ∈ orders, o.Aims place) (schedule : List (Nat × Moment)) :
    let s := (start d orders).run schedule
    (∀ who, s.Through who →
        (s.Succeeds who ↔ Timely place folder s.log who ∧ d.root.Leads folder.path)) ∧
      (∃ (successes : List Nat) (x : Item), successes.Nodup ∧ (∀ who, who ∈ successes ↔ s.Succeeds who) ∧
        s.drive.find? (Path.parent place) = some x ∧
        x.named (Path.fileName place) =
          if Path.IsDirect (Path.segments folder.path) then successes.length else 0) ∧
      (orders ≠ [] → (∀ who < orders.length, s.Through who) →
        (((∀ i j, s.Succeeds i → s.Succeeds j → i = j) ∧
            ∃ x, s.drive.find? (Path.parent place) = some x ∧ x.named (Path.fileName place) = 1) ↔
          Order.Allowed place ∧ Path.IsDirect (Path.segments folder.path) ∧
            ∀ i < orders.length, ∀ j < orders.length, Early s.log i → Early s.log j → i = j)) := by
  intro s
  have h : Invariant place folder (d.root.Leads folder.path) orders.length s :=
    (invariant_start hr.grounded hfind hfolder hfree haims).run schedule
  obtain ⟨x, hx, -, -, hcount⟩ := h.holds
  refine ⟨fun who => h.succeeds_iff, ⟨_, x, h.once, fun who => h.mem_winners_iff, hx, hcount⟩, ?_⟩
  intro hsome hthrough
  have hleads (hdirect : Path.IsDirect (Path.segments folder.path)) : d.root.Leads folder.path :=
    ⟨folder, (hr.grounded.find?_path_iff hfind).mpr hdirect, hfolder⟩
  constructor
  · rintro ⟨hone, x', hx', hsingle⟩
    obtain rfl := Option.some.inj (hx.symm.trans hx')
    rw [hcount] at hsingle
    split at hsingle
    · next hdirect =>
        obtain ⟨first, hfirst⟩ := List.length_eq_one_iff.mp hsingle
        have hwon : s.Succeeds first := h.mem_winners_iff.mp (by simp [hfirst])
        have hallowed := ((h.succeeds_iff hwon.through).mp hwon).1.allowed
        have halone := (h.alone_iff hthrough hallowed hdirect (hleads hdirect)).mp hone
        exact ⟨hallowed, hdirect, halone⟩
    · cases hsingle
  · rintro ⟨hallowed, hdirect, honly⟩
    have hone := (h.alone_iff hthrough hallowed hdirect (hleads hdirect)).mpr honly
    have hzero := hthrough 0 (List.length_pos_of_ne_nil hsome)
    refine ⟨hone, x, hx, ?_⟩
    rw [hcount, if_pos hdirect]
    exact h.length_winners hone (h.winners_ne_nil hzero hallowed (hleads hdirect))

-- Two guests at home who want to make something of the same name.
def rivals : List Order :=
  [ .folder ⟨CommandLine.parse "mkdir x", [], ⟨.epoch, .epoch⟩⟩ (.make .default),
    .file ⟨CommandLine.parse "touch ../Guest/x", [], ⟨.epoch, .epoch⟩⟩ (.make .default) ]

-- The second checks when the first is through.
theorem succeeds_run_rivals :
    let s := (start (.stock .epoch 1) rivals).run ([0, 0, 0, 0, 1].map (·, .epoch))
    (Drive.stock .epoch 1).root.WellFormed ∧ (∀ o ∈ rivals, o.Aims "/C:/Users/Guest/x") ∧
      (∀ i j, s.Succeeds i → s.Succeeds j → i = j) ∧
      ∃ x, s.drive.find? (Path.parent "/C:/Users/Guest/x") = some x ∧
        x.named (Path.fileName "/C:/Users/Guest/x") = 1 := by
  intro s
  have hr : (Drive.stock .epoch 1).root.WellFormed := Drive.wellFormed_stock .epoch 1
  have haims : ∀ o ∈ rivals, o.Aims "/C:/Users/Guest/x" := by
    simp only [rivals, List.forall_mem_cons]
    exact ⟨⟨"x", by decide +kernel, by decide +kernel⟩,
      ⟨"../Guest/x", by decide +kernel, by decide +kernel⟩, List.forall_mem_nil _⟩
  have hhome : ((Drive.stock .epoch 1).find? (Path.parent "/C:/Users/Guest/x")).map
      (fun x => (x.isFolder, x.named "x", x.path)) = some (true, 0, "/C:/Users/Guest") := by
    decide +kernel
  obtain ⟨folder, hfind, hlook⟩ := Option.map_eq_some_iff.mp hhome
  obtain ⟨hfolder, hrest⟩ := Prod.mk.inj hlook
  obtain ⟨hfree, hpath⟩ := Prod.mk.inj hrest
  have hname : Path.fileName "/C:/Users/Guest/x" = "x" := by decide +kernel
  have hfree : folder.child? (Path.fileName "/C:/Users/Guest/x") = none := by
    rw [hname]
    exact Item.named_eq_zero_iff.mp hfree
  refine ⟨hr, haims, ?_⟩
  refine ((succeeds_run hr hfind hfolder hfree haims _).2.2 (by decide) (by decide +kernel)).mpr ?_
  refine ⟨⟨by decide +kernel, by decide +kernel, by decide +kernel⟩, ?_, by decide +kernel⟩
  rw [hpath]
  decide +kernel

-- Folders in one another that are all called like the shortcut to the top, and two sessions in the
-- innermost one.
def nested : Drive :=
  (((Drive.empty .epoch 1).after (.create .folder "/" "My Computer") .epoch).after
    (.create .folder "/My Computer/My Computer" "My Computer") .epoch).after
      (.create .folder "/My Computer/My Computer/My Computer" "My Computer") .epoch

def insiders : List Order :=
  List.replicate 2 (.folder ⟨CommandLine.parse "mkdir x", [], ⟨.epoch, .epoch⟩⟩
    ((Session.make .default).setPath "/My Computer/My Computer/My Computer"))

-- Both check before either makes the item.
def collision : Making :=
  (start (.stock .epoch 1) rivals).run ([0, 1, 0, 0, 0, 1, 1, 1].map (·, .epoch))

-- One comes after the other, but the path of the folder leads elsewhere.
def diversion : Making :=
  (start nested insiders).run ([0, 0, 0, 0, 1, 1, 1, 1].map (·, .epoch))

theorem not_single_rivals :
    (collision.Succeeds 0 ∧ collision.Succeeds 1 ∧
        (collision.drive.find? "/C:/Users/Guest").map (·.named "x") = some 2) ∧
      diversion.Succeeds 0 ∧ diversion.Succeeds 1 ∧ diversion.drive.root.named "x" = 2 ∧
        (diversion.drive.root.descend ["My Computer"]).map
          (·.entries.filter (·.name = "x")) = some [] := by
  decide +kernel

end Making

end DesktopShell

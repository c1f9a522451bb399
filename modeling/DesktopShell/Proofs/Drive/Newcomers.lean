import DesktopShell.Proofs.Drive.Trail
import DesktopShell.Proofs.Snapshot.RoundTrip

namespace DesktopShell

namespace Snapshot

-- The search for the largest number ends with one that it has come across, and with none below any
-- of those.
theorem foldl_largest {xs : List Item} {top largest : ItemId}
    (h : xs.foldl (fun top x => if top < x.id then x.id else top) top = largest) :
    (largest = top ∨ largest ∈ xs.map Item.id) ∧ top ≤ largest ∧ ∀ x ∈ xs, x.id ≤ largest := by
  induction xs generalizing top with
  | nil =>
      obtain rfl : top = largest := h
      exact ⟨.inl rfl, UInt64.le_refl top, List.forall_mem_nil _⟩
  | cons x xs ih =>
      rw [List.foldl_cons] at h
      obtain ⟨hmem, htop, hall⟩ := ih h
      rw [List.map_cons, List.mem_cons, List.forall_mem_cons]
      by_cases hlt : top < x.id
      · rw [if_pos hlt] at hmem htop
        exact ⟨.inr hmem, UInt64.le_trans (UInt64.le_of_lt hlt) htop, htop, hall⟩
      · rw [if_neg hlt] at hmem htop
        exact ⟨hmem.imp_right .inr, htop, UInt64.le_trans (UInt64.not_lt.mp hlt) htop, hall⟩

theorem maxId_mem_ids (root : Item) : maxId root ∈ root.ids := by
  rw [Item.ids_eq_map_walk]
  have hlargest : maxId root = root.id ∨ maxId root ∈ root.walk.map Item.id :=
    (foldl_largest rfl).1
  rcases hlargest with h | h
  · rw [h]
    exact List.mem_map_of_mem (Item.self_mem_walk root)
  · exact h

theorem le_maxId {root : Item} {i : ItemId} (h : i ∈ root.ids) : i ≤ maxId root := by
  rw [Item.ids_eq_map_walk] at h
  obtain ⟨x, hx, rfl⟩ := List.mem_map.mp h
  exact (foldl_largest rfl).2.2 x hx

-- There is a number behind all that are in a tree, unless the last one of all is among them.
theorem exists_behind_iff (root : Item) :
    (maxId root).toNat + 1 < UInt64.size ↔ ∀ i ∈ root.ids, i.toNat + 1 < UInt64.size := by
  constructor
  · intro hroom i hi
    have hle := UInt64.le_iff_toNat_le.mp (le_maxId hi)
    omega
  · intro h
    exact h _ (maxId_mem_ids root)

end Snapshot

namespace Drive

-- How many of these changes are made, one after the other.
def made (d : Drive) : List (Change × Moment) → Nat
  | [] => 0
  | (change, now) :: rest =>
      (if (d.commit? change now).isSome then 1 else 0) + made (d.after change now) rest

-- Each time an item is made, its number is one that no item has.
def NewcomersFresh (d : Drive) : List (Change × Moment) → Prop
  | [] => True
  | (change, now) :: rest =>
      (∀ result, d.commit? change now = some result → result.subject.id ∉ d.root.ids) ∧
        NewcomersFresh (d.after change now) rest

variable {d : Drive} {change : Change} {now : Moment} {result : Committed}
  {changes : List (Change × Moment)}

theorem ids_of_created (hr : d.root.Grounded) (hc : change.creates = true)
    (h : d.commit? change now = some result) :
    result.subject.id = d.nextId ∧ result.drive.root.ids.Perm (d.nextId :: d.root.ids) := by
  obtain ⟨plan, hplan, rfl⟩ := commit?_eq_some_iff.mp h
  cases change with
  | update | delete => cases hc
  | create what folder name =>
      obtain ⟨e, cs, -, hsubject, hex⟩ := (Change.plan?_create_iff hr).mp hplan
      obtain ⟨front, back, hids, hids'⟩ := hex.exists_ids
      refine ⟨?_, ?_⟩
      · show plan.subject.id = d.nextId
        rw [hsubject, Item.id_make]
      · rw [hids, hids', Item.ids_mk, Item.ids_mk, List.flatMap_append, List.flatMap_singleton,
          hsubject, Item.ids_make]
        apply List.perm_iff_count.mpr
        intro i
        simp only [List.count_append, List.count_cons, List.count_nil, Entry.touch]
        omega

section Step

variable {rest : List (Change × Moment)}

theorem newcomersFresh_of_none (h : d.commit? change now = none) :
    d.NewcomersFresh ((change, now) :: rest) ↔ d.NewcomersFresh rest := by
  rw [NewcomersFresh, after_of_none h, h]
  simp

theorem newcomersFresh_of_some (hr : d.root.Grounded) (hc : change.creates = true)
    (h : d.commit? change now = some result) :
    d.NewcomersFresh ((change, now) :: rest) ↔
      d.nextId ∉ d.root.ids ∧ result.drive.NewcomersFresh rest := by
  rw [NewcomersFresh, after_of_some h, h, ← (ids_of_created hr hc h).1]
  refine and_congr_left fun _ => ?_
  exact ⟨fun hall => hall result rfl, fun hnew result' he => Option.some.inj he ▸ hnew⟩

end Step

-- The numbers on the drive stay apart as long as newcomers get fresh ones.
theorem trail_nodup_iff (hr : d.root.Grounded) (hd : d.root.ids.Nodup)
    (hcreate : ∀ c ∈ changes, c.1.creates = true) :
    (∀ d' ∈ d.trail changes, d'.root.ids.Nodup) ↔ d.NewcomersFresh changes := by
  induction changes generalizing d with
  | nil => simpa [trail, NewcomersFresh] using hd
  | cons change rest ih =>
      obtain ⟨change, now⟩ := change
      obtain ⟨hc, hrest⟩ := List.forall_mem_cons.mp hcreate
      rw [trail, List.forall_mem_cons]
      cases h : d.commit? change now with
      | none =>
          rw [after_of_none h, newcomersFresh_of_none h, ih hr hd hrest]
          exact and_iff_right hd
      | some result =>
          have hnodup : result.drive.root.ids.Nodup ↔ d.nextId ∉ d.root.ids := by
            rw [(ids_of_created hr hc h).2.nodup_iff, List.nodup_cons]
            exact and_iff_left hd
          rw [after_of_some h, newcomersFresh_of_some hr hc h]
          constructor
          · rintro ⟨-, hall⟩
            have hself := hall _ (self_mem_trail _ rest)
            exact ⟨hnodup.mp hself, (ih (grounded_commit? hr h) hself hrest).mp hall⟩
          · rintro ⟨hfresh, hlater⟩
            have hself := hnodup.mpr hfresh
            exact ⟨hd, (ih (grounded_commit? hr h) hself hrest).mpr hlater⟩

-- Numbers that count up from one that is free come back to a given number in the end.
theorem lt_size_of_free {next i : ItemId} {n : Nat} {ids : List ItemId} (hi : i ∈ ids)
    (hfree : ∀ k < n, next + .ofNat k ∉ ids) : n < UInt64.size := by
  by_contra hn
  have hlt := (i - next).toNat_lt
  apply hfree (i - next).toNat (by unfold UInt64.size at hn; omega)
  rw [UInt64.ofNat_toNat, UInt64.add_comm, UInt64.sub_add_cancel]
  exact hi

theorem add_ofNat_ne {next : ItemId} {n : Nat} (hpos : 0 < n) (hn : n < UInt64.size) :
    next + .ofNat n ≠ next := by
  intro he
  have hzero := congrArg UInt64.toNat ((UInt64.add_eq_left).mp he)
  rw [UInt64.toNat_ofNat_of_lt' hn, UInt64.toNat_zero] at hzero
  omega

theorem newcomersFresh_iff_free (hr : d.root.Grounded)
    (hcreate : ∀ c ∈ changes, c.1.creates = true) :
    d.NewcomersFresh changes ↔ ∀ k < d.made changes, d.nextId + .ofNat k ∉ d.root.ids := by
  induction changes generalizing d with
  | nil => simp [NewcomersFresh, made]
  | cons change rest ih =>
      obtain ⟨change, now⟩ := change
      obtain ⟨hc, hrest⟩ := List.forall_mem_cons.mp hcreate
      rw [made]
      cases h : d.commit? change now with
      | none =>
          rw [newcomersFresh_of_none h, after_of_none h, ih hr hrest]
          simp
      | some result =>
          have hnext : result.drive.nextId = d.nextId + 1 := by rw [nextId_commit? h, if_pos hc]
          have hshift (k : Nat) : d.nextId + 1 + .ofNat k = d.nextId + .ofNat (k + 1) := by
            rw [UInt64.add_assoc, Nat.add_comm, UInt64.ofNat_add]
            rfl
          rw [newcomersFresh_of_some hr hc h, after_of_some h, ih (grounded_commit? hr h) hrest, hnext]
          simp only [(ids_of_created hr hc h).2.mem_iff, List.mem_cons, not_or, hshift,
            Option.isSome_some, if_true]
          constructor
          · rintro ⟨hnew, hlater⟩ (_ | k) hk
            · simpa using hnew
            · exact (hlater k (by omega)).2
          · intro hfree
            have hbound := lt_size_of_free (Item.id_mem_ids (Item.self_mem_walk d.root)) hfree
            refine ⟨by simpa using hfree 0 (by omega), fun k hk => ⟨?_, hfree (k + 1) (by omega)⟩⟩
            exact add_ofNat_ne (by omega) (by omega)

-- Where all numbers are below the next one, it takes a wrap to come back to one of them.
theorem free_iff_of_numbered {next : ItemId} {ids : List ItemId} (h : ∀ i ∈ ids, i < next) (n : Nat) :
    (∀ k < n, next + .ofNat k ∉ ids) ↔ ∀ i ∈ ids, next.toNat + n ≤ UInt64.size + i.toNat := by
  constructor
  · intro hfree i hi
    have hlt := UInt64.lt_iff_toNat_lt.mp (h i hi)
    have hnext := next.toNat_lt
    by_contra hover
    unfold UInt64.size at hover
    have hback : next + .ofNat (2 ^ 64 + i.toNat - next.toNat) = i := by
      rw [← UInt64.toNat_inj, UInt64.toNat_add, UInt64.toNat_ofNat']
      omega
    exact hfree _ (by omega) (hback.symm ▸ hi)
  · intro hroom k hk hi
    have hlt := UInt64.lt_iff_toNat_lt.mp (h _ hi)
    have hle := hroom _ hi
    rw [UInt64.toNat_add, UInt64.toNat_ofNat'] at hlt hle
    unfold UInt64.size at hle
    omega

variable {next : ItemId} {text : String}

theorem nextId_ofSnapshot (restored : ofSnapshot next text = .ok d) :
    d.nextId =
      if next < Snapshot.maxId d.root + 1 then Snapshot.maxId d.root + 1 else next := by
  unfold ofSnapshot at restored
  cases ht : Snapshot.tree? text with
  | error damage => rw [ht] at restored; cases restored
  | ok root => rw [ht] at restored; cases restored; rfl

theorem numbered_ofSnapshot (restored : ofSnapshot next text = .ok d)
    (hroom : (Snapshot.maxId d.root).toNat + 1 < UInt64.size) : d.Numbered := by
  intro i hi
  have hle := UInt64.le_iff_toNat_le.mp (Snapshot.le_maxId hi)
  have hbehind := toNat_succ hroom
  rw [nextId_ofSnapshot restored, UInt64.lt_iff_toNat_lt]
  split
  · omega
  · next hnext =>
      rw [UInt64.lt_iff_toNat_lt] at hnext
      omega

-- When the last number of all is taken there is none behind it, and the numbers go on from where
-- they stood.
theorem nextId_ofSnapshot_of_full (restored : ofSnapshot next text = .ok d)
    (hfull : ¬(Snapshot.maxId d.root).toNat + 1 < UInt64.size) : d.nextId = next := by
  have hlt := (Snapshot.maxId d.root).toNat_lt
  have hwrap : Snapshot.maxId d.root + 1 = 0 := by
    rw [← UInt64.toNat_inj, UInt64.toNat_add, UInt64.toNat_one, UInt64.toNat_zero]
    unfold UInt64.size at hfull
    omega
  rw [nextId_ofSnapshot restored, hwrap, if_neg (UInt64.not_lt.mpr UInt64.zero_le)]

-- What becomes of the numbers when items are added to a drive that has been restored. They stay apart
-- as long as the count does not wrap as far as a number that is taken. It starts behind all of those,
-- unless the last number of all is one of them.
theorem newcomersFresh_iff_ofSnapshot (restored : ofSnapshot next text = .ok d)
    (creations : ∀ c ∈ changes, c.1.creates = true) :
    (d.NewcomersFresh changes ↔ ∀ d' ∈ d.trail changes, d'.root.ids.Nodup) ∧
    (d.NewcomersFresh changes ↔ ∀ k < d.made changes, d.nextId + .ofNat k ∉ d.root.ids) ∧
    ((Snapshot.maxId d.root).toNat + 1 < UInt64.size ↔
      ∀ i ∈ d.root.ids, i.toNat + 1 < UInt64.size) ∧
    ((Snapshot.maxId d.root).toNat + 1 < UInt64.size →
      d.Numbered ∧ (d.NewcomersFresh changes ↔
        ∀ i ∈ d.root.ids, d.nextId.toNat + d.made changes ≤ UInt64.size + i.toNat)) ∧
    (¬(Snapshot.maxId d.root).toNat + 1 < UInt64.size → d.nextId = next) := by
  have hr := wellFormed_ofSnapshot restored
  have hfree := newcomersFresh_iff_free hr.grounded creations
  refine ⟨(trail_nodup_iff hr.grounded hr.distinct creations).symm, hfree,
    Snapshot.exists_behind_iff d.root, fun hroom => ?_, nextId_ofSnapshot_of_full restored⟩
  have hn := numbered_ofSnapshot restored hroom
  exact ⟨hn, hfree.trans (free_iff_of_numbered hn _)⟩

-- A tree with the last number but one on top, and the first of all below it.
def brim : Item :=
  (Item.folder ⟨18446744073709551614, .epoch⟩ "" "/").withChildren
    [.textFile ⟨0, .epoch⟩ "zero.txt" "/zero.txt" "z"]

def atBrim : Drive :=
  .ofRoot brim 18446744073709551615

theorem ofSnapshot_brim : ofSnapshot 1 brim.toJson.render = .ok atBrim := by
  have hflaw : Snapshot.flaw? brim = none := by decide +kernel
  have hheight : ¬63 < brim.height := by decide
  have hbehind : Snapshot.maxId brim + 1 = 18446744073709551615 := by decide +kernel
  have hread : Snapshot.tree? brim.toJson.render = .ok brim := by
    rw [Snapshot.tree?_render, if_neg hheight, hflaw]
    rfl
  rw [ofSnapshot, hread]
  simp only [bind, Except.bind, hbehind]
  rfl

def notes : List (Change × Moment) :=
  [(.create (.text "") "/" "p.txt", .epoch), (.create (.text "") "/" "q.txt", .epoch)]

-- There is one number left.
theorem newcomersFresh_iff_ofSnapshot_brim :
    ofSnapshot 1 brim.toJson.render = .ok atBrim ∧ (∀ c ∈ notes.take 1, c.1.creates = true) ∧
      (∀ d' ∈ atBrim.trail (notes.take 1), d'.root.ids.Nodup) := by
  have hcreate : ∀ c ∈ notes.take 1, c.1.creates = true := by decide
  obtain ⟨hnodup, hfree, -, -, -⟩ := newcomersFresh_iff_ofSnapshot ofSnapshot_brim hcreate
  refine ⟨ofSnapshot_brim, hcreate, hnodup.mp (hfree.mpr ?_)⟩
  have hids : atBrim.root.ids = [18446744073709551614, 0] := by decide +kernel
  have hmade : atBrim.made (notes.take 1) = 1 := by decide +kernel
  rw [hmade, hids]
  decide

-- The second item gets the number of the one that is there.
theorem not_newcomersFresh_brim :
    ofSnapshot 1 brim.toJson.render = .ok atBrim ∧ (∀ c ∈ notes, c.1.creates = true) ∧
      ¬atBrim.NewcomersFresh notes := by
  have hcreate : ∀ c ∈ notes, c.1.creates = true := by decide
  refine ⟨ofSnapshot_brim, hcreate, fun hfresh => ?_⟩
  have hr := (wellFormed_ofSnapshot ofSnapshot_brim).grounded
  have hids : atBrim.root.ids = [18446744073709551614, 0] := by decide +kernel
  have hmade : atBrim.made notes = 2 := by decide +kernel
  have hfree := (newcomersFresh_iff_free hr hcreate).mp hfresh 1 (by rw [hmade]; decide)
  rw [hids] at hfree
  exact hfree (by decide)

end Drive

end DesktopShell

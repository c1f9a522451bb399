import DesktopShell.Proofs.World.Snapshot

namespace DesktopShell

namespace Item

theorem heightAll_le {cs : List Item} {n : Nat} (h : ∀ c ∈ cs, c.height ≤ n) : heightAll cs ≤ n := by
  induction cs with
  | nil => exact Nat.zero_le n
  | cons c cs ih =>
      rw [heightAll]
      have hc := h c List.mem_cons_self
      have hcs := ih fun d hd => h d (List.mem_cons_of_mem c hd)
      omega

end Item

namespace Snapshot

open Item

variable {room : Nat} {v : Json} {cs : List Item} {x : Item}

theorem exists_of_optional? {α : Type} {fields : List (String × Json)} {name : String}
    {read : Json → Option α} {a : α} (h : optional? fields name read = some (some a)) :
    ∃ v, read v = some a := by
  unfold optional? at h
  split at h
  · cases h
  · cases h
  · next v _ _ =>
      obtain ⟨b, hread, hb⟩ := Option.map_eq_some_iff.mp h
      exact ⟨v, hread.trans hb⟩

theorem exists_of_mem_mapM {α β : Type} {f : α → Option β} {as : List α} {bs : List β}
    (h : as.mapM f = some bs) {b : β} (hb : b ∈ bs) : ∃ a ∈ as, f a = some b := by
  induction as generalizing bs with
  | nil =>
      obtain rfl : [] = bs := Option.some.inj h
      cases hb
  | cons a as ih =>
      rw [List.mapM_cons] at h
      obtain ⟨b', hb', h⟩ := Option.bind_eq_some_iff.mp h
      obtain ⟨bs', hbs', h⟩ := Option.bind_eq_some_iff.mp h
      obtain rfl : b' :: bs' = bs := Option.some.inj h
      rcases List.mem_cons.mp hb with rfl | hb
      · exact ⟨a, List.mem_cons_self, hb'⟩
      · obtain ⟨c, hc, hcb⟩ := ih hbs' hb
        exact ⟨c, List.mem_cons_of_mem a hc, hcb⟩

-- However a folder is spelled, it takes two levels of nesting, its own and that of the list that
-- its children are read from.
theorem exists_room {e : Entry} (h : item? room v = some (.mk e (some cs))) :
    ∃ below, room = below + 2 ∧ ∀ c ∈ cs, ∃ w, item? below w = some c := by
  cases room with
  | zero =>
      rw [item?] at h
      cases h
  | succ room =>
      rw [item?] at h
      obtain ⟨fields, -, h⟩ := Option.bind_eq_some_iff.mp h
      obtain ⟨e', -, h⟩ := Option.bind_eq_some_iff.mp h
      obtain ⟨cs?, hcs, h⟩ := Option.bind_eq_some_iff.mp h
      obtain ⟨rfl, rfl⟩ := Item.mk.inj (Option.some.inj h)
      obtain ⟨w, hw⟩ := exists_of_optional? hcs
      unfold items? at hw
      split at hw
      · next below items _ _ =>
          refine ⟨below, rfl, fun c hc => ?_⟩
          obtain ⟨w, -, hw⟩ := exists_of_mem_mapM hw hc
          exact ⟨w, hw⟩
      · cases hw

theorem height_le_of_item? {room : Nat} {v : Json} {x : Item} (h : item? room v = some x) :
    2 * x.height ≤ room := by
  induction room using Nat.strongRecOn generalizing v x with
  | ind room ih =>
      obtain ⟨e, _ | cs⟩ := x
      · rw [height]
        omega
      · obtain ⟨below, rfl, hcs⟩ := exists_room h
        have hbelow : heightAll cs ≤ below / 2 := by
          refine heightAll_le fun c hc => ?_
          obtain ⟨w, hw⟩ := hcs c hc
          have := ih below (by omega) hw
          omega
        rw [height]
        omega

theorem exists_item_of_tree? {text : String} {root : Item} (h : tree? text = .ok root) :
    ∃ v, item? maxNesting v = some root := by
  unfold tree? at h
  split at h
  · cases h
  · next x hx =>
      split at h
      · cases h
      · obtain rfl : x = root := Except.ok.inj h
        obtain ⟨v, -, hv⟩ := Option.bind_eq_some_iff.mp hx
        exact ⟨v, hv⟩

end Snapshot

namespace Drive

open Moment (epoch)

-- Whatever spelling a snapshot has, the tree that it gives is given again, item by item and field by
-- field, by the text that this tree is kept as. What is written is never nested deeper than what
-- was read.
theorem ofSnapshot_snapshot {next : ItemId} {text : String} {d : Drive}
    (restored : ofSnapshot next text = .ok d) (next' : ItemId) :
    ∃ d', ofSnapshot next' d.snapshot = .ok d' ∧ d'.root = d.root := by
  have hr := wellFormed_ofSnapshot restored
  obtain ⟨v, hv⟩ := Snapshot.exists_item_of_tree? (ofSnapshot_eq_ok restored)
  have hroom := Snapshot.height_le_of_item? hv
  have hheight : d.root.height ≤ 63 := by
    unfold Snapshot.maxNesting at hroom
    omega
  exact (restorable_iff hr.grounded).mpr ⟨hheight, hr.distinct⟩ next'

-- A folder spelled as a list, its name with an escape, its kind as an object and its times in two
-- zones, with a text and a payload that no command gives to a folder.
def oddSpelling : String :=
  "[7,\"\\u0041\",\x7b\"folder\":null\x7d,null,\"//\",\"x\",\"AA==\",[],true,true," ++
    "\"2000-01-01T02:00:00+02:00\",\"2000-01-01 0:0:0z\"]"

theorem ofSnapshot_snapshot_oddSpelling :
    ∃ d, ofSnapshot 1 oddSpelling = .ok d ∧
      ∃ d', ofSnapshot 1 d.snapshot = .ok d' ∧ d'.root = d.root := by
  have hread : (ofSnapshot 1 oddSpelling).toBool = true := by decide +kernel
  cases hd : ofSnapshot 1 oddSpelling with
  | error damage =>
      rw [hd] at hread
      cases hread
  | ok d => exact ⟨d, rfl, ofSnapshot_snapshot hd 1⟩

end Drive

end DesktopShell

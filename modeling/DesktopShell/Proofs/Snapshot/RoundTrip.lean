import DesktopShell.Proofs.Snapshot.Entry
import DesktopShell.Proofs.Tree.Exchange
import DesktopShell.Snapshot.Restore

namespace DesktopShell.Item

mutual

-- How many folders lie in each other, from the top of a tree down.
def height : Item → Nat
  | mk _ none => 0
  | mk _ (some cs) => 1 + heightAll cs

def heightAll : List Item → Nat
  | [] => 0
  | x :: xs => max (height x) (heightAll xs)

end

theorem height_le_heightAll {c : Item} {cs : List Item} (h : c ∈ cs) : c.height ≤ heightAll cs := by
  induction cs with
  | nil => simp at h
  | cons d cs ih =>
      rw [heightAll]
      rcases List.mem_cons.mp h with rfl | h
      · omega
      · have := ih h
        omega

-- Each step down leads out of one more folder.
theorem height_of_descend {x y : Item} {names : List String} (h : x.descend names = some y) :
    names.length + y.height ≤ x.height := by
  induction names generalizing x with
  | nil =>
      obtain rfl : x = y := Option.some.inj h
      rw [List.length_nil, Nat.zero_add]
  | cons name names ih =>
      obtain ⟨c, hc, hy⟩ := descend_cons.mp h
      obtain ⟨e, before, after, rfl, -, -⟩ := exists_mk_of_child? hc
      have hle := height_le_heightAll (show c ∈ before ++ c :: after by simp)
      have hbelow := ih hy
      rw [height, List.length_cons]
      omega

end DesktopShell.Item

namespace DesktopShell.Snapshot

open Item

variable (e : Entry) (items : List Json) (room : Nat)

theorem item?_file : item? (room + 1) (.ofMembers (e.fields none)) = some (.mk e none) := by
  obtain ⟨-, -, -, -, -, -, -, hchildren, -, -, -, -⟩ := e.lookup_fields none
  rw [item?, e.fields?_ofMembers, Option.bind_eq_bind, Option.bind_some, e.read_fields,
    Option.bind_eq_bind, Option.bind_some, optional?_missing hchildren]
  rfl

theorem item?_folder : item? (room + 1) (.ofMembers (e.fields (some (.array items)))) =
    (items? room (.array items)).map fun cs => .mk e (some cs) := by
  obtain ⟨-, -, -, -, -, -, -, hchildren, -, -, -, -⟩ := e.lookup_fields (some (.array items))
  rw [item?, e.fields?_ofMembers, Option.bind_eq_bind, Option.bind_some, e.read_fields,
    Option.bind_eq_bind, Option.bind_some, optional?_given hchildren (by simp)]
  cases items? room (.array items) <;> rfl

mutual

-- A tree is read back as it was, or not at all when it is too high for the room.
theorem item?_toJson : ∀ (x : Item) (k : Nat),
    item? (2 * k + 1) x.toJson = if x.height ≤ k then some x else none
  | .mk e none, k => by
      rw [height, if_pos (Nat.zero_le k)]
      exact item?_file e (2 * k)
  | .mk e (some cs), 0 => by
      rw [if_neg (by rw [height]; omega)]
      exact item?_folder e (listToJson cs) 0
  | .mk e (some cs), k + 1 => by
      refine (item?_folder e (listToJson cs) (2 * k + 2)).trans ?_
      rw [items?, mapM_item?_listToJson cs k, height]
      by_cases hk : heightAll cs ≤ k
      · rw [if_pos hk, if_pos (by omega), Option.map_some]
      · rw [if_neg hk, if_neg (by omega), Option.map_none]

theorem mapM_item?_listToJson : ∀ (xs : List Item) (k : Nat),
    (listToJson xs).mapM (item? (2 * k + 1)) = if heightAll xs ≤ k then some xs else none
  | [], k => by
      rw [heightAll, if_pos (Nat.zero_le k)]
      rfl
  | x :: xs, k => by
      rw [listToJson, List.mapM_cons, item?_toJson x k, mapM_item?_listToJson xs k, heightAll]
      by_cases hx : x.height ≤ k
      · by_cases hxs : heightAll xs ≤ k
        · have hboth : max x.height (heightAll xs) ≤ k := by omega
          rw [if_pos hx, if_pos hxs, if_pos hboth]
          rfl
        · have hboth : ¬max x.height (heightAll xs) ≤ k := by omega
          rw [if_pos hx, if_neg hxs, if_neg hboth]
          rfl
      · have hboth : ¬max x.height (heightAll xs) ≤ k := by omega
        rw [if_neg hx, if_neg hboth]
        rfl

end

theorem sound_members {children : List (String × Json)} (h : ∀ m ∈ children, m.2.Sound) :
    ∀ m ∈ e.members children, m.2.Sound := by
  have hstring := Json.sound_ofOption Json.Sound.string
  intro m hm
  simp only [Entry.members, List.mem_append, List.mem_cons, List.not_mem_nil, or_false] at hm
  rcases hm with ((hm | hm) | hm) | hm
  · rcases hm with rfl | rfl | rfl | rfl | rfl | rfl
    · exact Json.sound_ofNat _
    · exact .string _
    · exact .string _
    · exact hstring _
    · exact .string _
    · exact hstring _
  · rw [Option.mem_toList] at hm
    obtain ⟨bytes, -, rfl⟩ := Option.map_eq_some_iff.mp hm
    exact .string _
  · exact h m hm
  · rcases hm with rfl | rfl | rfl | rfl
    · exact .bool _
    · exact .bool _
    · exact .string _
    · exact .string _

mutual

theorem sound_toJson : ∀ x : Item, x.toJson.Sound
  | .mk e none => by
      rw [toJson]
      exact Json.sound_ofMembers (sound_members e (List.forall_mem_nil _))
  | .mk e (some cs) => by
      rw [toJson]
      refine Json.sound_ofMembers (sound_members e (List.forall_mem_singleton.mpr ?_))
      exact .array (sound_listToJson cs)

theorem sound_listToJson : ∀ xs : List Item, ∀ v ∈ listToJson xs, v.Sound
  | [], v, hv => by simp [listToJson] at hv
  | x :: xs, v, hv => by
      rw [listToJson, List.mem_cons] at hv
      rcases hv with rfl | hv
      · exact sound_toJson x
      · exact sound_listToJson xs v hv

end

-- The text of a tree is read as that tree as long as no more than 63 folders lie in each other.
theorem tree?_render (root : Item) : tree? root.toJson.render =
    if 63 < root.height then .error .unreadable
    else (flaw? root).elim (.ok root) fun flaw => .error (.flawed flaw) := by
  have hread := item?_toJson root 63
  rw [tree?, Json.parse?_render (sound_toJson root), Option.bind_some, maxNesting]
  by_cases hheight : root.height ≤ 63
  · rw [if_pos hheight] at hread
    have hlow : ¬63 < root.height := by omega
    simp only [hread, if_neg hlow]
    cases flaw? root <;> simp only [Option.elim]
  · rw [if_neg hheight] at hread
    have hhigh : 63 < root.height := by omega
    simp only [hread, if_pos hhigh]

end DesktopShell.Snapshot

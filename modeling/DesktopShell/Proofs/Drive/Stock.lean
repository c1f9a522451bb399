import DesktopShell.Drive.Stock
import DesktopShell.Proofs.Tree.Siblings
import DesktopShell.Proofs.Tree.WellFormed
import Mathlib.Data.List.Nodup

namespace DesktopShell

namespace Layout

mutual

-- How many items are planned.
def size : Layout → Nat
  | .folder _ _ children => 1 + sizeAll children
  | .text .. | .binary .. => 1

def sizeAll : List Layout → Nat
  | [] => 0
  | l :: ls => size l + sizeAll ls

end

-- The numbers that `n` items get, one after the other.
def numbers (next : ItemId) (n : Nat) : List ItemId :=
  (List.range n).map fun i => next + .ofNat i

theorem numbers_add (next : ItemId) (m n : Nat) :
    numbers next (m + n) = numbers next m ++ numbers (next + .ofNat m) n := by
  simp only [numbers, List.range_add, List.map_append, List.map_map]
  congr 1
  apply List.map_congr_left
  intro i _
  simp only [Function.comp_apply, UInt64.ofNat_add, UInt64.add_assoc]

theorem numbers_one (next : ItemId) : numbers next 1 = [next] := by
  simp [numbers]

theorem numbers_nodup (next : ItemId) {n : Nat} (hn : n ≤ UInt64.size) : (numbers next n).Nodup := by
  apply List.Nodup.map_on _ List.nodup_range
  intro i hi j hj h
  have hij := congrArg UInt64.toNat (UInt64.add_right_inj next |>.mp h)
  simp only [List.mem_range] at hi hj
  have hi : i < UInt64.size := by omega
  have hj : j < UInt64.size := by omega
  rwa [UInt64.toNat_ofNat_of_lt' hi, UInt64.toNat_ofNat_of_lt' hj] at hij

section Guarded

variable (guard : Guard) (x : Item)

theorem guardedBy_ids : (guardedBy guard x).ids = x.ids := by
  obtain ⟨e, cs⟩ := x
  cases guard <;> rw [Item.ids_eq, Item.ids_eq] <;> rfl

theorem guardedBy_placed (h : x.Placed) : (guardedBy guard x).Placed := by
  obtain ⟨e, cs⟩ := x
  cases guard with
  | free => exact h
  | owned => exact .mk h.kind (fun _ => h.path_child) fun _ => h.child
  | system => exact .mk h.kind (fun _ => h.path_child) fun _ => h.child

theorem guardedBy_path : (guardedBy guard x).path = x.path := by
  obtain ⟨e, cs⟩ := x
  cases guard <;> rfl

theorem guardedBy_name : (guardedBy guard x).name = x.name := by
  obtain ⟨e, cs⟩ := x
  cases guard <;> rfl

end Guarded

-- What is built in a folder at `path` stands in its place and has the next `n` numbers.
structure Built (path : String) (next : ItemId) (n : Nat) (xs : List Item) (after : ItemId) : Prop where
  placed : ∀ x ∈ xs, x.path = Path.join path x.name ∧ x.Placed
  ids : xs.flatMap Item.ids = numbers next n
  after : after = next + .ofNat n

theorem built_guarded {path : String} {next : ItemId} {n : Nat} {x : Item} {after : ItemId}
    (guard : Guard) (h : Built path next n [x] after) :
    Built path next n [guardedBy guard x] after := by
  obtain ⟨hpath, hx⟩ := h.placed x List.mem_cons_self
  refine ⟨fun y hy => ?_, ?_, h.after⟩
  · obtain rfl := List.mem_singleton.mp hy
    rw [guardedBy_path, guardedBy_name]
    exact ⟨hpath, guardedBy_placed guard x hx⟩
  · rw [← h.ids, List.flatMap_singleton, List.flatMap_singleton, guardedBy_ids]

theorem built_file {path name : String} {next : ItemId} {x : Item}
    (hx : x.Placed) (hpath : x.path = Path.join path name) (hname : x.name = name)
    (hids : x.ids = [next]) : Built path next 1 [x] (next + 1) := by
  refine ⟨fun y hy => ?_, ?_, rfl⟩
  · obtain rfl := List.mem_singleton.mp hy
    exact ⟨by rw [hpath, hname], hx⟩
  · rw [List.flatMap_singleton, hids, numbers_one]

theorem build_folder (now : Moment) (path : String) (next : ItemId) (name : String) (guard : Guard)
    (children : List Layout) :
    build now path next (.folder name guard children) =
      let built := buildAll now (Path.join path name) (next + 1) children
      (guardedBy guard
        (.mk (Item.folder ⟨next, now⟩ name (Path.join path name)).entry (some built.1)), built.2) :=
  rfl

mutual

theorem built_build (now : Moment) (path : String) (next : ItemId) :
    ∀ l : Layout, Built path next l.size [(build now path next l).1] (build now path next l).2
  | .folder name guard children => by
      have h := built_buildAll now (Path.join path name) (next + 1) children
      rw [build_folder]
      refine built_guarded guard ⟨fun x hx => ?_, ?_, ?_⟩
      · obtain rfl := List.mem_singleton.mp hx
        exact ⟨rfl, Item.placed_folder_iff.mpr ⟨rfl, h.placed⟩⟩
      · rw [List.flatMap_singleton, Item.ids_mk, h.ids, size, numbers_add, numbers_one]
        rfl
      · rw [h.after, size, UInt64.ofNat_add, ← UInt64.add_assoc]
        rfl
  | .text name guard content => by
      apply built_guarded
      exact built_file (Item.placed_file_iff.mpr rfl) rfl rfl (by rw [Item.ids_eq]; rfl)
  | .binary name guard payload => by
      apply built_guarded
      exact built_file (Item.placed_file_iff.mpr rfl) rfl rfl (by rw [Item.ids_eq]; rfl)

theorem built_buildAll (now : Moment) (path : String) (next : ItemId) :
    ∀ ls : List Layout,
      Built path next (sizeAll ls) (buildAll now path next ls).1 (buildAll now path next ls).2
  | [] => ⟨by simp [buildAll], by simp [buildAll, sizeAll, numbers], by simp [buildAll, sizeAll]⟩
  | l :: ls => by
      have h := built_build now path next l
      have hs := built_buildAll now path (build now path next l).2 ls
      rw [buildAll, sizeAll]
      refine ⟨fun x hx => ?_, ?_, ?_⟩
      · rcases List.mem_cons.mp hx with rfl | hx
        · exact h.placed _ List.mem_cons_self
        · exact hs.placed x hx
      · have hids := h.ids
        rw [List.flatMap_singleton] at hids
        rw [List.flatMap_cons, hids, hs.ids, h.after, numbers_add]
      · rw [hs.after, h.after, UInt64.ofNat_add, UInt64.add_assoc]

end

theorem drive_root (now : Moment) (next : ItemId) (ls : List Layout) :
    (drive now next ls).root =
      .mk (Item.root ⟨next, now⟩).entry (some (buildAll now "/" (next + 1) ls).1) := rfl

theorem drive_nextId (now : Moment) (next : ItemId) (ls : List Layout) :
    (drive now next ls).nextId = next + .ofNat (1 + sizeAll ls) := by
  have h := (built_buildAll now "/" (next + 1) ls).after
  rw [UInt64.ofNat_add, ← UInt64.add_assoc]
  exact h

theorem drive_ids (now : Moment) (next : ItemId) (ls : List Layout) :
    (drive now next ls).root.ids = numbers next (1 + sizeAll ls) := by
  have h := (built_buildAll now "/" (next + 1) ls).ids
  rw [drive_root, Item.ids_mk, h, numbers_add, numbers_one]
  rfl

theorem wellFormed_drive (now : Moment) (next : ItemId) (ls : List Layout)
    (hsize : sizeAll ls < UInt64.size) : (drive now next ls).root.WellFormed := by
  have h := built_buildAll now "/" (next + 1) ls
  refine ⟨rfl, (Path.isRoot_iff _).mpr Path.segments_slash, ?_, ?_⟩
  · rw [drive_root]
    exact Item.placed_folder_iff.mpr ⟨rfl, h.placed⟩
  · rw [drive_ids]
    exact numbers_nodup next (by omega)

-- Where numbering does not wrap, the next number is above all that have been given.
theorem drive_above (now : Moment) (next : ItemId) (ls : List Layout)
    (hsize : next.toNat + 1 + sizeAll ls < UInt64.size) :
    ∀ i ∈ (drive now next ls).root.ids, i < (drive now next ls).nextId := by
  intro i hi
  rw [drive_ids] at hi
  obtain ⟨k, hk, rfl⟩ := List.mem_map.mp hi
  rw [List.mem_range] at hk
  rw [drive_nextId, UInt64.lt_iff_toNat_lt, UInt64.toNat_add, UInt64.toNat_add,
    UInt64.toNat_ofNat', UInt64.toNat_ofNat']
  unfold UInt64.size at hsize
  omega

def name : Layout → String
  | folder name _ _ => name
  | text name _ _ => name
  | binary name _ _ => name

mutual

-- No folder is planned with two children of one name.
def namesDistinct : Layout → Bool
  | folder _ _ children => namesDistinctAll children
  | text .. | binary .. => true

def namesDistinctAll : List Layout → Bool
  | [] => true
  | l :: ls => !(ls.map name).contains l.name && namesDistinct l && namesDistinctAll ls

end

theorem guardedBy_namesDistinct {guard : Guard} {x : Item} (h : x.NamesDistinct) :
    (guardedBy guard x).NamesDistinct := by
  obtain ⟨e, cs⟩ := x
  rw [Item.namesDistinct_iff] at h ⊢
  cases guard <;> exact h

theorem name_build (now : Moment) (path : String) (next : ItemId) (l : Layout) :
    (build now path next l).1.name = l.name := by
  cases l with
  | folder name guard children => cases guard <;> rfl
  | text name guard content => cases guard <;> rfl
  | binary name guard payload => cases guard <;> rfl

theorem names_buildAll (now : Moment) (path : String) (next : ItemId) (ls : List Layout) :
    (buildAll now path next ls).1.map Item.name = ls.map name := by
  induction ls generalizing next with
  | nil => rfl
  | cons l ls ih =>
      rw [buildAll, List.map_cons, List.map_cons, name_build, ih]

mutual

theorem namesDistinct_build (now : Moment) (path : String) (next : ItemId) :
    ∀ l : Layout, l.namesDistinct = true → (build now path next l).1.NamesDistinct
  | folder name guard children, h => by
      rw [namesDistinct] at h
      exact guardedBy_namesDistinct
        (Item.namesDistinct_mk.mpr (namesDistinct_buildAll now _ (next + 1) children h))
  | text name guard content, _ => guardedBy_namesDistinct (Item.namesDistinct_leaf rfl)
  | binary name guard payload, _ => guardedBy_namesDistinct (Item.namesDistinct_leaf rfl)

theorem namesDistinct_buildAll (now : Moment) (path : String) (next : ItemId) :
    ∀ ls : List Layout, namesDistinctAll ls = true →
      ((buildAll now path next ls).1.map Item.name).Nodup ∧
        ∀ x ∈ (buildAll now path next ls).1, x.NamesDistinct
  | [], _ => ⟨List.nodup_nil, fun x hx => absurd hx List.not_mem_nil⟩
  | l :: ls, h => by
      rw [namesDistinctAll, Bool.and_eq_true, Bool.and_eq_true] at h
      obtain ⟨⟨hnew, hl⟩, hls⟩ := h
      have hfirst := namesDistinct_build now path next l hl
      obtain ⟨hnames, hrest⟩ := namesDistinct_buildAll now path (build now path next l).2 ls hls
      rw [buildAll]
      refine ⟨?_, fun x hx => ?_⟩
      · rw [List.map_cons, List.nodup_cons, names_buildAll, name_build]
        rw [names_buildAll] at hnames
        exact ⟨by simpa using hnew, hnames⟩
      · rcases List.mem_cons.mp hx with rfl | hx
        · exact hfirst
        · exact hrest x hx

end

end Layout

namespace Drive

theorem wellFormed_empty (now : Moment) (next : ItemId) : (empty now next).root.WellFormed :=
  Layout.wellFormed_drive now next [] (by decide)

theorem wellFormed_stock (now : Moment) (next : ItemId) : (stock now next).root.WellFormed :=
  Layout.wellFormed_drive now next stockLayout (by decide)

theorem namesDistinct_stock (now : Moment) (next : ItemId) :
    (stock now next).root.NamesDistinct :=
  Item.namesDistinct_mk.mpr
    (Layout.namesDistinct_buildAll now "/" (next + 1) stockLayout (by decide))

theorem nextId_stock (now : Moment) (next : ItemId) : (stock now next).nextId = next + 26 := by
  have hsize : Layout.sizeAll stockLayout = 25 := by decide
  rw [stock, Layout.drive_nextId, hsize]
  rfl

end Drive

end DesktopShell

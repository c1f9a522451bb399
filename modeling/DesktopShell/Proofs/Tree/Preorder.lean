import DesktopShell.Proofs.Tree.Walk
import Mathlib.Logic.Function.Iterate

-- The order of a walk. A node is told from others by its position and not by what it is, as a tree
-- can hold one item twice. A walk comes to every position once, in the order in which they are read
-- from left to right: a folder, what is below its first child, what is below the next one.
namespace DesktopShell.Item

-- Which child to go down to on each level, counted from zero.
abbrev Position := List Nat

def itemAt? : Position → Item → Option Item
  | [], x => some x
  | n :: rest, x => x.children[n]?.bind (itemAt? rest)

-- These are the nodes of a tree, each with its position. The order of positions is that of their
-- numbers from the top down, and a position comes before those below it.
structure DepthFirst (root : Item) (sites : List (Position × Item)) : Prop where
  complete : ∀ p x, (p, x) ∈ sites ↔ root.itemAt? p = some x
  ordered : sites.Pairwise fun s t => s.1 < t.1

mutual

def sites : Item → List (Position × Item)
  | mk e none => [([], mk e none)]
  | mk e (some cs) => ([], mk e (some cs)) :: sitesFrom 0 cs

-- The nodes of a run of siblings, the first of which has the number `n`.
def sitesFrom (n : Nat) : List Item → List (Position × Item)
  | [] => []
  | x :: xs => (sites x).map (fun s => (n :: s.1, s.2)) ++ sitesFrom (n + 1) xs

end

theorem sites_eq (x : Item) : x.sites = ([], x) :: sitesFrom 0 x.children := by
  obtain ⟨e, _ | cs⟩ := x <;> rfl

variable {x y root : Item} {cs : List Item} {p : Position} {n : Nat}

theorem mem_sitesFrom :
    (p, y) ∈ sitesFrom n cs ↔ ∃ i q c, cs[i]? = some c ∧ p = (n + i) :: q ∧ (q, y) ∈ c.sites := by
  induction cs generalizing n with
  | nil => simp [sitesFrom]
  | cons c cs ih =>
      rw [sitesFrom, List.mem_append, List.mem_map, ih]
      constructor
      · rintro (⟨⟨q, z⟩, hq, hsite⟩ | ⟨i, q, d, hd, rfl, hq⟩)
        · obtain ⟨rfl, rfl⟩ := Prod.mk.inj hsite
          exact ⟨0, q, c, rfl, rfl, hq⟩
        · exact ⟨i + 1, q, d, hd, by rw [Nat.add_right_comm, Nat.add_assoc], hq⟩
      · rintro ⟨_ | i, q, d, hd, rfl, hq⟩
        · obtain rfl : c = d := Option.some.inj hd
          exact .inl ⟨(q, y), hq, rfl⟩
        · exact .inr ⟨i, q, d, hd, by rw [Nat.add_right_comm, Nat.add_assoc], hq⟩

theorem mem_sites_iff : (p, y) ∈ x.sites ↔ x.itemAt? p = some y := by
  induction p generalizing x with
  | nil =>
      rw [sites_eq, List.mem_cons, mem_sitesFrom, itemAt?]
      simp [eq_comm]
  | cons i p ih =>
      rw [sites_eq, List.mem_cons, mem_sitesFrom, itemAt?, Option.bind_eq_some_iff]
      constructor
      · rintro (h | ⟨j, q, c, hc, hp, hq⟩)
        · cases h
        · obtain ⟨rfl, rfl⟩ := List.cons.inj hp
          exact ⟨c, by rwa [Nat.zero_add], ih.mp hq⟩
      · rintro ⟨c, hc, hy⟩
        exact .inr ⟨i, p, c, hc, by rw [Nat.zero_add], ih.mpr hy⟩

-- The nodes below one child come before those below the children to the right of it.
theorem pairwise_sitesFrom (h : ∀ c ∈ cs, c.sites.Pairwise fun s t => s.1 < t.1) (n : Nat) :
    (sitesFrom n cs).Pairwise fun s t => s.1 < t.1 := by
  induction cs generalizing n with
  | nil => exact .nil
  | cons c cs ih =>
      obtain ⟨hc, hcs⟩ := List.forall_mem_cons.mp h
      refine List.pairwise_append.mpr ⟨?_, ih hcs (n + 1), ?_⟩
      · refine List.pairwise_map.mpr (hc.imp fun hlt => ?_)
        exact List.cons_lt_cons_iff.mpr (.inr ⟨rfl, hlt⟩)
      · rintro s hs ⟨q, z⟩ ht
        obtain ⟨s, -, rfl⟩ := List.mem_map.mp hs
        obtain ⟨i, q, d, -, rfl, -⟩ := mem_sitesFrom.mp ht
        exact List.cons_lt_cons_iff.mpr (.inl (by omega))

theorem pairwise_sites (x : Item) : x.sites.Pairwise fun s t => s.1 < t.1 := by
  induction x using childInduction with
  | step x ih =>
      rw [sites_eq]
      refine List.pairwise_cons.mpr ⟨fun ⟨q, z⟩ hs => ?_, pairwise_sitesFrom ih 0⟩
      obtain ⟨i, q, c, -, rfl, -⟩ := mem_sitesFrom.mp hs
      exact List.nil_lt_cons _ _

theorem depthFirst_sites (x : Item) : DepthFirst x x.sites :=
  ⟨fun _ _ => mem_sites_iff, pairwise_sites x⟩

theorem map_snd_sitesFrom (h : ∀ c ∈ cs, c.sites.map Prod.snd = c.walk) (n : Nat) :
    (sitesFrom n cs).map Prod.snd = cs.flatMap walk := by
  induction cs generalizing n with
  | nil => rfl
  | cons c cs ih =>
      obtain ⟨hc, hcs⟩ := List.forall_mem_cons.mp h
      rw [sitesFrom, List.map_append, List.map_map, ih hcs, List.flatMap_cons, ← hc]
      rfl

theorem map_snd_sites (x : Item) : x.sites.map Prod.snd = x.walk := by
  induction x using childInduction with
  | step x ih => rw [sites_eq, List.map_cons, map_snd_sitesFrom ih, walk_eq]

section First

variable {before after : List (Position × Item)}

-- What a search in this order has passed by when it comes to a node.
theorem DepthFirst.mem_before_iff (h : DepthFirst root (before ++ (p, x) :: after))
    (q : Position) (y : Item) : (q, y) ∈ before ↔ q < p ∧ root.itemAt? q = some y := by
  obtain ⟨-, hlater, hbefore⟩ := List.pairwise_append.mp h.ordered
  rw [← h.complete, List.mem_append, List.mem_cons]
  constructor
  · exact fun hq => ⟨hbefore _ hq (p, x) List.mem_cons_self, .inl hq⟩
  · rintro ⟨hlt, hq | hq | hq⟩
    · exact hq
    · cases hq
      exact absurd hlt (List.lt_irrefl p)
    · exact absurd hlt (List.lt_asymm ((List.pairwise_cons.mp hlater).1 (q, y) hq))

theorem findFirst?_eq_some_iff_itemAt? {test : Item → Bool} :
    root.findFirst? test = some x ↔
      ∃ p, root.itemAt? p = some x ∧ test x = true ∧
        ∀ q < p, ∀ y, root.itemAt? q = some y → test y = false := by
  have hall := depthFirst_sites root
  rw [findFirst?, ← map_snd_sites, List.find?_map, Option.map_eq_some_iff]
  constructor
  · rintro ⟨⟨p, x⟩, hfind, rfl⟩
    obtain ⟨hx, before, after, hsites, hfirst⟩ := List.find?_eq_some_iff_append.mp hfind
    rw [hsites] at hall
    refine ⟨p, (hall.complete p x).mp (by simp), hx, fun q hq y hy => ?_⟩
    simpa using hfirst (q, y) ((hall.mem_before_iff q y).mpr ⟨hq, hy⟩)
  · rintro ⟨p, hp, hx, hfirst⟩
    obtain ⟨before, after, hsites⟩ := List.append_of_mem ((hall.complete p x).mpr hp)
    rw [hsites] at hall ⊢
    refine ⟨(p, x), List.find?_eq_some_iff_append.mpr ⟨hx, before, after, rfl, ?_⟩, rfl⟩
    rintro ⟨q, y⟩ hmem
    obtain ⟨hq, hy⟩ := (hall.mem_before_iff q y).mp hmem
    simp [hfirst q hq y hy]

end First

theorem mem_walk_iff_itemAt? : x ∈ root.walk ↔ ∃ p, root.itemAt? p = some x := by
  rw [← map_snd_sites, List.mem_map]
  simp only [Prod.exists, exists_eq_right, mem_sites_iff]

-- A walk under way: what it has listed so far, and the stack with the next item on top.
structure Tour where
  listed : List Item
  pending : List Item

-- One turn of the loop. Once the stack is empty nothing changes any more.
def Tour.turn : Tour → Tour
  | ⟨listed, []⟩ => ⟨listed, []⟩
  | ⟨listed, x :: rest⟩ => ⟨listed ++ [x], x.children ++ rest⟩

-- A turn lists the first of the items that are to be visited from here on.
theorem Tour.turn_eq (t : Tour) :
    t.turn.listed = t.listed ++ (visit t.pending).take 1 ∧
      visit t.turn.pending = (visit t.pending).drop 1 := by
  obtain ⟨listed, _ | ⟨x, rest⟩⟩ := t <;> simp [turn, visit]

theorem Tour.iterate_turn (n : Nat) (t : Tour) :
    (turn^[n] t).listed = t.listed ++ (visit t.pending).take n ∧
      visit (turn^[n] t).pending = (visit t.pending).drop n := by
  induction n with
  | zero => simp
  | succ n ih =>
      obtain ⟨hlisted, hpending⟩ := ih
      obtain ⟨hlisted', hpending'⟩ := turn_eq (turn^[n] t)
      rw [Function.iterate_succ_apply', hlisted', hpending', hlisted, hpending]
      exact ⟨by rw [List.append_assoc, List.take_add], List.drop_drop⟩

-- A walk is an item and then the walks of its children, one after the other, so it comes to every
-- node once and in the order of the positions. After any number of turns of its loop as many items
-- have been listed, and the walks of those on the stack are the rest. A search finds the first node
-- that passes the test, and finds nothing only where there is none. A tree contains something
-- protected if one of the items of its walk is protected, and not otherwise.
theorem depthFirst_walk (root : Item) :
    root.walk = root :: root.children.flatMap walk ∧
      (∃ sites, DepthFirst root sites ∧ root.walk = sites.map Prod.snd) ∧
      (∀ n, (Tour.turn^[n] ⟨[], [root]⟩).listed = root.walk.take n ∧
        (Tour.turn^[n] ⟨[], [root]⟩).pending.flatMap walk = root.walk.drop n) ∧
      (∀ test x, root.findFirst? test = some x ↔
        ∃ p, root.itemAt? p = some x ∧ test x = true ∧
          ∀ q < p, ∀ y, root.itemAt? q = some y → test y = false) ∧
      (∀ test, root.findFirst? test = none ↔
        ∀ p x, root.itemAt? p = some x → test x = false) ∧
      (root.containsProtected = true ↔ ∃ x ∈ root.walk, x.entry.isProtected = true) := by
  refine ⟨walk_eq root, ⟨root.sites, depthFirst_sites root, (map_snd_sites root).symm⟩, fun n => ?_,
    fun test x => findFirst?_eq_some_iff_itemAt?, fun test => ?_, ?_⟩
  · obtain ⟨hlisted, hpending⟩ := Tour.iterate_turn n ⟨[], [root]⟩
    rw [← visit_eq_flatMap]
    exact ⟨hlisted, hpending⟩
  · rw [findFirst?, List.find?_eq_none]
    simp only [mem_walk_iff_itemAt?, forall_exists_index, Bool.not_eq_true]
    exact forall_comm
  · rw [containsProtected_iff, entries]
    simp only [List.mem_map, exists_exists_and_eq_and]

end DesktopShell.Item

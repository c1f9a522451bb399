import DesktopShell.Proofs.Tree.WellFormed
import DesktopShell.Snapshot.Restore

-- The check of a tree as a loop: what each of its turns does, where it stops, and which items it
-- has visited by then.
namespace DesktopShell.Snapshot

open Item

-- What a flaw says of a tree.
inductive Flaw.Of (root : Item) : Flaw → Prop
  | root (top : ¬(root.isFolder = true ∧ Path.segments root.path = [])) : Of root .root
  | duplicate {id : ItemId} (twice : 2 ≤ root.ids.count id) : Of root (.duplicate id)
  | children {x : Item} (inside : x ∈ root.walk) (kind : x.isFolder ≠ x.children?.isSome) :
      Of root (.children x.path)
  | misplaced {x c : Item} (inside : x ∈ root.walk) (child : c ∈ x.children)
      (path : c.path ≠ Path.join x.path c.name) : Of root (.misplaced c.path)

-- How far a search has come: the numbers met so far, and the stack.
structure Sweep where
  seen : List ItemId
  pending : List Item

-- What one turn comes to. The search is at its end, with a flaw or without, or it has visited the
-- item on top and goes on.
inductive Turn
  | ends (found : Option Flaw)
  | visits (x : Item) (next : Sweep)

namespace Sweep

def turn : Sweep → Turn
  | ⟨_, []⟩ => .ends none
  | ⟨seen, x :: rest⟩ =>
      if x.id ∈ seen then .ends (some (.duplicate x.id))
      else if x.isFolder ≠ x.children?.isSome then .ends (some (.children x.path))
      else
        match x.children.find? fun c => c.path ≠ Path.join x.path c.name with
        | some c => .ends (some (.misplaced c.path))
        | none => .visits x ⟨x.id :: seen, x.children.reverse ++ rest⟩

-- A search from where it stands to its end, turn by turn.
inductive Run : Sweep → List Item → Option Flaw → Prop
  | ends {s : Sweep} {found : Option Flaw} (turn : s.turn = .ends found) : Run s [] found
  | visits {s next : Sweep} {x : Item} {visited : List Item} {found : Option Flaw}
      (turn : s.turn = .visits x next) (more : Run next visited found) : Run s (x :: visited) found

theorem turn_eq_visits {s next : Sweep} {x : Item} (h : s.turn = .visits x next) :
    ∃ seen rest, s = ⟨seen, x :: rest⟩ ∧ next = ⟨x.id :: seen, x.children.reverse ++ rest⟩ := by
  obtain ⟨seen, _ | ⟨y, rest⟩⟩ := s
  · cases h
  · unfold turn at h
    dsimp only at h
    split at h
    · cases h
    · split at h
      · cases h
      · split at h
        · cases h
        · cases h
          exact ⟨seen, rest, rfl, rfl⟩

-- A search stops when nothing is left, or at an item with something wrong about it.
theorem turn_eq_ends {s : Sweep} {found : Option Flaw} (h : s.turn = .ends found) :
    (s.pending = [] ∧ found = none) ∨
      ∃ seen x rest, s = ⟨seen, x :: rest⟩ ∧
        ((x.id ∈ seen ∧ found = some (.duplicate x.id)) ∨
          (x.isFolder ≠ x.children?.isSome ∧ found = some (.children x.path)) ∨
          ∃ c ∈ x.children, c.path ≠ Path.join x.path c.name ∧ found = some (.misplaced c.path)) := by
  obtain ⟨seen, _ | ⟨x, rest⟩⟩ := s
  · cases h
    exact .inl ⟨rfl, rfl⟩
  · refine .inr ⟨seen, x, rest, rfl, ?_⟩
    unfold turn at h
    dsimp only at h
    split at h
    · next hseen =>
        cases h
        exact .inl ⟨hseen, rfl⟩
    · split at h
      · next hkind =>
          cases h
          exact .inr (.inl ⟨hkind, rfl⟩)
      · split at h
        · next c hc =>
            cases h
            have hpath := List.find?_some hc
            exact .inr (.inr ⟨c, List.mem_of_find?_eq_some hc, of_decide_eq_true hpath, rfl⟩)
        · cases h

-- The search is its turns, one after the other.
theorem search_eq (s : Sweep) :
    search s.seen s.pending =
      match s.turn with
      | .ends found => found
      | .visits _ next => search next.seen next.pending := by
  obtain ⟨seen, _ | ⟨x, rest⟩⟩ := s
  · rw [search]
    rfl
  · rw [search, turn]
    split
    · rfl
    · split
      · rfl
      · cases x.children.find? fun c => c.path ≠ Path.join x.path c.name <;> rfl

-- However it starts, a search comes to an end, and to one only.
theorem exists_run (s : Sweep) : ∃ visited, Run s visited (search s.seen s.pending) := by
  obtain ⟨seen, pending⟩ := s
  -- By the recursion of the search, whose measure is the number of items below the stack.
  induction seen, pending using search.induct with
  | case1 seen => exact ⟨[], .ends (by rw [search]; rfl)⟩
  | case2 seen x rest hx => exact ⟨[], .ends (by rw [search, turn, if_pos hx, if_pos hx])⟩
  | case3 seen x rest hx hk =>
      refine ⟨[], .ends ?_⟩
      rw [search, turn, if_neg hx, if_neg hx, if_pos hk, if_pos hk]
  | case4 seen x rest hx hk c hc =>
      refine ⟨[], .ends ?_⟩
      rw [search, turn, if_neg hx, if_neg hx, if_neg hk, if_neg hk, hc]
  | case5 seen x rest hx hk hc ih =>
      have hturn : turn ⟨seen, x :: rest⟩ =
          .visits x ⟨x.id :: seen, x.children.reverse ++ rest⟩ := by
        rw [turn, if_neg hx, if_neg hk, hc]
      obtain ⟨visited, hrun⟩ := ih
      rw [search_eq, hturn]
      exact ⟨x :: visited, .visits hturn hrun⟩

variable {s : Sweep} {visited visited' : List Item} {found found' : Option Flaw}

theorem Run.unique (h : Run s visited found) (h' : Run s visited' found') :
    visited' = visited ∧ found' = found := by
  induction h generalizing visited' with
  | ends turn =>
      cases h' with
      | ends turn' => exact ⟨rfl, Turn.ends.inj (turn'.symm.trans turn)⟩
      | visits turn' _ => cases turn'.symm.trans turn
  | visits turn _ ih =>
      cases h' with
      | ends turn' => cases turn'.symm.trans turn
      | visits turn' more' =>
          obtain ⟨rfl, rfl⟩ := Turn.visits.inj (turn'.symm.trans turn)
          obtain ⟨rfl, rfl⟩ := ih more'
          exact ⟨rfl, rfl⟩

-- Nothing is visited twice: together with what is left when the search stops, the items visited are
-- those below the stack. None is left when it stops without a flaw.
theorem Run.visited_perm (h : Run s visited found) :
    ∃ left, (visited ++ left).Perm (s.pending.flatMap walk) ∧ (found = none → left = []) := by
  induction h with
  | @ends s found turn =>
      refine ⟨s.pending.flatMap walk, .refl _, ?_⟩
      rcases turn_eq_ends turn with ⟨hdone, -⟩ | ⟨seen, x, rest, -, hflaw⟩
      · rw [hdone]
        exact fun _ => rfl
      · rintro rfl
        simp at hflaw
  | @visits s next x visited found turn _ ih =>
      obtain ⟨seen, rest, rfl, rfl⟩ := turn_eq_visits turn
      obtain ⟨left, hperm, hleft⟩ := ih
      have hchildren := (List.reverse_perm x.children).flatMap_right walk
      rw [List.flatMap_append] at hperm
      refine ⟨left, ?_, hleft⟩
      rw [List.flatMap_cons, walk_eq]
      exact (hperm.trans (hchildren.append_right _)).cons x

-- The numbers met and those below the stack are the numbers of the tree, and what is on the stack
-- is in the tree.
structure Within (root : Item) (s : Sweep) : Prop where
  ids : (s.seen ++ s.pending.flatMap ids).Perm root.ids
  pending : ∀ x ∈ s.pending, x ∈ root.walk

theorem within_start (root : Item) : Within root ⟨[], [root]⟩ where
  ids := by simp
  pending := by simp [self_mem_walk]

variable {root : Item}

theorem Within.next {seen : List ItemId} {x : Item} {rest : List Item}
    (h : Within root ⟨seen, x :: rest⟩) :
    Within root ⟨x.id :: seen, x.children.reverse ++ rest⟩ where
  ids := (ids_pending_perm seen x rest).trans h.ids
  pending := by
    intro y hy
    rcases List.mem_append.mp hy with hy | hy
    · have hchild : y ∈ x.walk := mem_walk.mpr (.inr ⟨y, List.mem_reverse.mp hy, self_mem_walk y⟩)
      exact mem_walk_trans hchild (h.pending x List.mem_cons_self)
    · exact h.pending y (List.mem_cons_of_mem x hy)

-- A search that stops at a flaw has found what it says.
theorem Run.flaw_of {flaw : Flaw} (h : Run s visited found) (hs : Within root s)
    (hfound : found = some flaw) : flaw.Of root := by
  induction h with
  | @ends s found turn =>
      rcases turn_eq_ends turn with ⟨-, rfl⟩ | ⟨seen, x, rest, rfl, hflaw⟩
      · cases hfound
      · have hx := hs.pending x List.mem_cons_self
        rcases hflaw with ⟨hseen, rfl⟩ | ⟨hkind, rfl⟩ | ⟨c, hc, hpath, rfl⟩ <;> cases hfound
        · have hbelow : x.id ∈ (x :: rest).flatMap ids :=
            List.mem_flatMap.mpr ⟨x, List.mem_cons_self, id_mem_ids (self_mem_walk x)⟩
          have hcount := hs.ids.count_eq x.id
          rw [List.count_append] at hcount
          have htwice := Nat.add_le_add (List.count_pos_iff.mpr hseen) (List.count_pos_iff.mpr hbelow)
          exact .duplicate (hcount ▸ htwice)
        · exact .children hx hkind
        · exact .misplaced hx hc hpath
  | visits turn _ ih =>
      obtain ⟨seen, rest, rfl, rfl⟩ := turn_eq_visits turn
      exact ih hs.next hfound

end Sweep

theorem flaw?_eq (root : Item) :
    flaw? root =
      if root.isFolder = true ∧ Path.segments root.path = [] then search [] [root]
      else some .root := by
  have htop : Path.isRoot root.path = true ↔ Path.segments root.path = [] := List.isEmpty_iff
  unfold flaw?
  by_cases hfolder : root.isFolder = true <;> by_cases hroot : Path.isRoot root.path = true <;>
    simp [hfolder, hroot, ← htop]

theorem flaw_of_flaw? {root : Item} {flaw : Flaw} (h : flaw? root = some flaw) : flaw.Of root := by
  rw [flaw?_eq] at h
  split at h
  · obtain ⟨visited, hrun⟩ := Sweep.exists_run ⟨[], [root]⟩
    exact hrun.flaw_of (Sweep.within_start root) h
  · next htop =>
      obtain rfl := Option.some.inj h
      exact .root htop

-- The check accepts well-formed trees and no others, and of any other it tells a flaw that the tree
-- has, as does the reading of a text. Its search comes to an end by one sequence of turns. In these
-- no item is visited twice, and none is left out when the tree is accepted.
theorem flaw?_exact (root : Item) :
    (flaw? root = none ↔ root.WellFormed) ∧
    (¬root.WellFormed → ∃ flaw, flaw? root = some flaw ∧ flaw.Of root) ∧
    (∀ text, (Json.parse? text).bind (item? maxNesting) = some root →
      (tree? text = .ok root ↔ root.WellFormed) ∧
      (¬root.WellFormed → ∃ flaw, tree? text = .error (.flawed flaw) ∧ flaw.Of root)) ∧
    ∃ visited found,
      (∀ visited' found', Sweep.Run ⟨[], [root]⟩ visited' found' ↔
        visited' = visited ∧ found' = found) ∧
      flaw? root =
        (if root.isFolder = true ∧ Path.segments root.path = [] then found else some .root) ∧
      ∃ left, (visited ++ left).Perm root.walk ∧ (flaw? root = none → left = []) := by
  have haccepts := flaw?_eq_none_iff root
  have hblames : ¬root.WellFormed → ∃ flaw, flaw? root = some flaw ∧ flaw.Of root := by
    intro hflawed
    obtain ⟨flaw, hflaw⟩ := Option.ne_none_iff_exists'.mp (mt haccepts.mp hflawed)
    exact ⟨flaw, hflaw, flaw_of_flaw? hflaw⟩
  refine ⟨haccepts, hblames, fun text htext => ?_, ?_⟩
  · unfold tree?
    rw [htext]
    dsimp only
    constructor
    · rw [← haccepts]
      cases flaw? root <;> simp
    · intro hflawed
      obtain ⟨flaw, hflaw, hof⟩ := hblames hflawed
      rw [hflaw]
      exact ⟨flaw, rfl, hof⟩
  · obtain ⟨visited, hrun⟩ := Sweep.exists_run ⟨[], [root]⟩
    obtain ⟨left, hperm, hleft⟩ := hrun.visited_perm
    have hroot := flaw?_eq root
    refine ⟨visited, _, fun visited' found' => ⟨hrun.unique, ?_⟩, hroot, left, ?_, fun hnone => ?_⟩
    · rintro ⟨rfl, rfl⟩
      exact hrun
    · simpa using hperm
    · rw [hnone] at hroot
      split at hroot
      · exact hleft hroot.symm
      · cases hroot

end DesktopShell.Snapshot

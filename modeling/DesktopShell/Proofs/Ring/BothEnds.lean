import DesktopShell.Proofs.Ring.Newest

namespace DesktopShell.Ring

variable {α : Type}

section Places

-- The places that calls at these ends read, of `n` places in a row, when `f` have been read from the
-- front and `b` from the back.
def placesFrom (n : Nat) : Nat → Nat → List End → List Nat
  | _, _, [] => []
  | f, b, .front :: ends => f :: placesFrom n (f + 1) b ends
  | f, b, .back :: ends => (n - 1 - b) :: placesFrom n f (b + 1) ends

-- Each call reads a place as long as there are any left.
def places (n : Nat) (ends : List End) : List Nat :=
  placesFrom n 0 0 (ends.take n)

variable {n f b : Nat} {ends : List End}

theorem length_placesFrom (n f b : Nat) (ends : List End) :
    (placesFrom n f b ends).length = ends.length := by
  induction ends generalizing f b with
  | nil => rfl
  | cons e ends ih =>
      cases e with
      | front => exact congrArg (· + 1) (ih (f + 1) b)
      | back => exact congrArg (· + 1) (ih f (b + 1))

-- Of the places in between, a call at the front reads the first one and a call at the back the last one.
theorem placesFrom_perm (h : f + b + ends.length ≤ n) :
    ∃ i j, i + j = ends.length ∧
      (placesFrom n f b ends).Perm (List.range' f i ++ List.range' (n - b - j) j) := by
  induction ends generalizing f b with
  | nil => exact ⟨0, 0, rfl, .refl _⟩
  | cons e ends ih =>
      rw [List.length_cons] at h
      cases e with
      | front =>
          obtain ⟨i, j, hlength, hperm⟩ := @ih (f + 1) b (by omega)
          refine ⟨i + 1, j, by rw [List.length_cons]; omega, ?_⟩
          rw [List.range'_succ]
          exact hperm.cons f
      | back =>
          obtain ⟨i, j, hlength, hperm⟩ := @ih f (b + 1) (by omega)
          refine ⟨i, j + 1, by rw [List.length_cons]; omega, ?_⟩
          have hstart : n - (b + 1) - j = n - b - (j + 1) := by omega
          have hlast : n - b - (j + 1) + 1 * j = n - 1 - b := by omega
          rw [hstart] at hperm
          rw [List.range'_concat, hlast, ← List.append_assoc]
          exact (hperm.cons (n - 1 - b)).trans (List.perm_append_singleton _ _).symm

-- What is read from the two ends is apart until all is read.
theorem outer_sublist {i j : Nat} (h : i + j ≤ n) :
    (List.range' 0 i ++ List.range' (n - j) j).Sublist (List.range n) := by
  have hinner := @List.range'_append i (n - j - i) j 1
  have houter := @List.range'_append 0 i (n - i) 1
  have hstart : i + 1 * (n - j - i) = n - j := by omega
  have hcount : n - j - i + j = n - i := by omega
  rw [hstart, hcount] at hinner
  rw [Nat.one_mul, Nat.zero_add, Nat.add_sub_of_le (Nat.le_of_add_right_le h), ← hinner] at houter
  rw [List.range_eq_range', ← houter]
  exact (List.sublist_append_right _ _).append_left _

theorem places_spec (n : Nat) (ends : List End) :
    (places n ends).Nodup ∧ (∀ p ∈ places n ends, p < n) ∧
      (n ≤ ends.length → (places n ends).Perm (List.range n)) := by
  have hlength : (ends.take n).length ≤ n := by
    rw [List.length_take]
    exact Nat.min_le_left _ _
  obtain ⟨i, j, hij, hperm⟩ := @placesFrom_perm n 0 0 (ends.take n) (by omega)
  rw [Nat.sub_zero] at hperm
  have hsub := outer_sublist (hij.trans_le hlength)
  refine ⟨hperm.nodup_iff.mpr (hsub.nodup List.nodup_range), fun p hp => ?_, fun hlong => ?_⟩
  · exact List.mem_range.mp (hsub.subset (hperm.mem_iff.mp hp))
  · have hfull : (List.range' 0 i ++ List.range' (n - j) j) = List.range n := by
      refine hsub.eq_of_length ?_
      rw [List.length_take, Nat.min_eq_left hlong] at hij
      simp [hij]
    rwa [← hfull]

end Places

section Reading

-- How far a reading has come behind calls at these ends.
def cursorAfter (r : Ring α) (c : Cursor) (ends : List End) : Cursor :=
  ends.foldl (fun c e => (r.read c e).2) c

variable {r : Ring α} {f b : Nat}

theorem next_of_lt (h : f + b < r.size) :
    r.next ⟨f, r.size - b⟩ = (r.toList[f]?, ⟨f + 1, r.size - b⟩) := by
  have hmore : ¬r.size - b ≤ f := by omega
  rw [next, if_neg hmore, r.get?_eq]

theorem nextBack_of_lt (h : f + b < r.size) :
    r.nextBack ⟨f, r.size - b⟩ = (r.toList[r.size - 1 - b]?, ⟨f, r.size - (b + 1)⟩) := by
  have hmore : ¬r.size - b ≤ f := by omega
  rw [nextBack, if_neg hmore, r.get?_eq, Nat.sub_right_comm, Nat.add_comm b 1, Nat.sub_add_eq]

-- Once the ends have met, nothing is given and nothing moves.
theorem readAll_of_full (h : f + b = r.size) (ends : List End) :
    r.readAll ⟨f, r.size - b⟩ ends = List.replicate ends.length none ∧
      r.cursorAfter ⟨f, r.size - b⟩ ends = ⟨f, r.size - b⟩ := by
  have hend : r.size - b ≤ f := by omega
  have hread (e : End) : r.read ⟨f, r.size - b⟩ e = (none, ⟨f, r.size - b⟩) := by
    cases e with
    | front => exact if_pos hend
    | back => exact if_pos hend
  induction ends with
  | nil => exact ⟨rfl, rfl⟩
  | cons e ends ih =>
      rw [readAll, cursorAfter, List.foldl_cons, hread]
      exact ⟨congrArg (none :: ·) ih.1, ih.2⟩

theorem readAll_from (h : f + b ≤ r.size) (ends : List End) :
    r.readAll ⟨f, r.size - b⟩ ends =
      (placesFrom r.size f b (ends.take (r.size - (f + b)))).map (r.toList[·]?) ++
        List.replicate (ends.length - (r.size - (f + b))) none := by
  induction ends generalizing f b with
  | nil => simp [readAll, placesFrom]
  | cons e ends ih =>
      rcases Nat.lt_or_eq_of_le h with hless | hfull
      · have hleft : r.size - (f + b) = r.size - (f + b + 1) + 1 := by omega
        rw [hleft, List.take_succ_cons, List.length_cons, Nat.add_sub_add_right, readAll]
        cases e with
        | front =>
            have hcount : f + 1 + b = f + b + 1 := by omega
            rw [read, next_of_lt hless, ih (by omega), hcount]
            rfl
        | back =>
            rw [read, nextBack_of_lt hless, ih (by omega), Nat.add_assoc f b 1]
            rfl
      · rw [(readAll_of_full hfull _).1, hfull, Nat.sub_self]
        rfl

theorem cursorAfter_from (h : f + b ≤ r.size) (ends : List End) :
    ∃ f' b', f' + b' = min (f + b + ends.length) r.size ∧
      r.cursorAfter ⟨f, r.size - b⟩ ends = ⟨f', r.size - b'⟩ := by
  induction ends generalizing f b with
  | nil => exact ⟨f, b, (Nat.min_eq_left h).symm, rfl⟩
  | cons e ends ih =>
      rcases Nat.lt_or_eq_of_le h with hless | hfull
      · rw [cursorAfter, List.foldl_cons, List.length_cons]
        cases e with
        | front =>
            obtain ⟨f', b', hcount, hcursor⟩ := @ih (f + 1) b (by omega)
            refine ⟨f', b', by omega, ?_⟩
            rw [read, next_of_lt hless]
            exact hcursor
        | back =>
            obtain ⟨f', b', hcount, hcursor⟩ := @ih f (b + 1) (by omega)
            refine ⟨f', b', by omega, ?_⟩
            rw [read, nextBack_of_lt hless]
            exact hcursor
      · exact ⟨f, b, by omega, (readAll_of_full hfull _).2⟩

theorem readAll_cursor (r : Ring α) (ends : List End) :
    r.readAll r.cursor ends =
      (places r.toList.length ends).map (r.toList[·]?) ++
        List.replicate (ends.length - r.toList.length) none := by
  rw [r.length_toList]
  exact readAll_from (f := 0) (b := 0) (Nat.zero_le _) ends

-- As many calls are given something as there are elements.
theorem countP_readAll (r : Ring α) (ends : List End) :
    (r.readAll r.cursor ends).countP (·.isSome) = min r.size ends.length := by
  have hsome : ∀ x ∈ (places r.toList.length ends).map (r.toList[·]?), x.isSome = true := by
    intro x hx
    obtain ⟨p, hp, rfl⟩ := List.mem_map.mp hx
    rw [List.getElem?_eq_getElem ((places_spec r.toList.length ends).2.1 p hp)]
    rfl
  have hnone : (List.replicate (ends.length - r.toList.length) (none : Option α)).countP
      (·.isSome) = 0 := by
    simp [List.countP_replicate]
  rw [readAll_cursor, List.countP_append, List.countP_eq_length.mpr hsome, hnone, List.length_map,
    places, length_placesFrom, List.length_take, r.length_toList, Nat.add_zero]

end Reading

-- What a ring with these contents gives to calls at these ends: to each call another element, from the
-- oldest on at the front and from the newest on at the back, until all have been given, and then
-- nothing. What is said to remain are those not given yet.
structure ReadsOut (r : Ring α) (contents : List α) (ends : List End) : Prop where
  answers : r.readAll r.cursor ends =
    (places contents.length ends).map (contents[·]?) ++
      List.replicate (ends.length - contents.length) none
  once : (places contents.length ends).Nodup
  inside : ∀ p ∈ places contents.length ends, p < contents.length
  all : contents.length ≤ ends.length →
    (places contents.length ends).Perm (List.range contents.length)
  front_le_back : (r.cursorAfter r.cursor ends).front ≤ (r.cursorAfter r.cursor ends).back
  remaining : (r.cursorAfter r.cursor ends).remaining +
    (r.readAll r.cursor ends).countP (·.isSome) = contents.length

theorem readsOut_toList (r : Ring α) (ends : List End) : r.ReadsOut r.toList ends := by
  obtain ⟨honce, hinside, hall⟩ := places_spec r.toList.length ends
  obtain ⟨f, b, hcount, hcursor⟩ := @cursorAfter_from _ r 0 0 (Nat.zero_le _) ends
  have hcursor : r.cursorAfter r.cursor ends = ⟨f, r.size - b⟩ := hcursor
  refine ⟨r.readAll_cursor ends, honce, hinside, hall, ?_, ?_⟩
  · rw [hcursor]
    simp only
    omega
  · rw [hcursor, countP_readAll, r.length_toList, Cursor.remaining]
    simp only
    omega

-- Whatever has been added to a ring and cleared away before, read at any ends in any order it gives
-- what it holds.
theorem readsOut_performAll {capacity : Nat} (hpos : 0 < capacity) (steps : List (Step α))
    (ends : List End) :
    ((make capacity hpos).performAll steps).ReadsOut ((added steps).rtake capacity) ends := by
  have hempty : (make capacity hpos : Ring α).toList = [].rtake capacity := by
    rw [toList_make, List.rtake_nil]
  obtain ⟨hlist, -⟩ := toList_performAll hempty steps
  have hreads := readsOut_toList ((make capacity hpos).performAll steps) ends
  rwa [hlist] at hreads

-- Stored around the end of the ring, and read until both ends meet and twice more.
theorem readsOut_performAll_meeting :
    let steps : List (Step Nat) := [.extend [1, 2, 3, 4], .push 5]
    let ends : List End := [.front, .back, .back, .front, .back]
    let r := (make 3 (by decide)).performAll steps
    0 < 3 ∧ added steps = [1, 2, 3, 4, 5] ∧ r.start = 2 ∧ r.ReadsOut [3, 4, 5] ends ∧
      r.readAll r.cursor ends = [some 3, some 5, some 4, none, none] := by
  intro steps ends r
  have hreads : r.ReadsOut [3, 4, 5] ends := readsOut_performAll (by decide) steps ends
  exact ⟨by decide, rfl, rfl, hreads, hreads.answers⟩

end DesktopShell.Ring

import DesktopShell.Proofs.History.Recall

namespace DesktopShell.History

-- What a step gives to whoever makes it.
def answer (h : History) : Step → Option String
  | .previous => h.recallPrevious.1
  | .next => some h.recallNext.1
  | .record _ | .reset => none

def answers (h : History) : List Step → List (Option String)
  | [] => []
  | step :: steps => h.answer step :: (h.perform step).answers steps

-- The same lines, of which this one is being recalled.
def recallAt (h : History) (i : Nat) : History :=
  { h with cursor := some i }

variable {h : History}

theorem performAll_append (h : History) (steps more : List Step) :
    h.performAll (steps ++ more) = (h.performAll steps).performAll more := List.foldl_append

theorem answers_append (h : History) (steps more : List Step) :
    h.answers (steps ++ more) = h.answers steps ++ (h.performAll steps).answers more := by
  induction steps generalizing h with
  | nil => rfl
  | cons step steps ih =>
      rw [List.cons_append, answers, answers, ih, List.cons_append]
      rfl

theorem performAll_concat (h : History) (steps : List Step) (step : Step) :
    h.performAll (steps ++ [step]) = (h.performAll steps).perform step :=
  h.performAll_append steps [step]

theorem answers_concat (h : History) (steps : List Step) (step : Step) :
    h.answers (steps ++ [step]) = h.answers steps ++ [(h.performAll steps).answer step] :=
  h.answers_append steps [step]

theorem resetCursor_of_none (hidle : h.cursor = none) : h.resetCursor = h := by
  rw [resetCursor, ← hidle]

section Back

theorem add_one_mod {n : Nat} (hpos : 0 < n) (k : Nat) :
    (k + 1) % n = if k % n + 1 = n then 0 else k % n + 1 := by
  rw [← Nat.mod_add_mod]
  split
  · next hround => rw [hround, Nat.mod_self]
  · next hless =>
      have hlt := Nat.mod_lt k hpos
      exact Nat.mod_eq_of_lt (by omega)

-- One step back from where as many steps lead from the newest line, around the circle.
theorem back_recallAt (hsome : h.entries.size ≠ 0) (k : Nat) :
    (h.recallAt (h.entries.size - 1 - k % h.entries.size)).back =
      h.entries.size - 1 - (k + 1) % h.entries.size := by
  have hpos := Nat.pos_of_ne_zero hsome
  have hlt := Nat.mod_lt k hpos
  rw [add_one_mod hpos]
  unfold back
  split
  · next hnone => cases hnone
  · next hzero =>
      have hoff : h.entries.size - 1 - k % h.entries.size = 0 := Option.some.inj hzero
      rw [if_pos (by omega)]
      rfl
  · next i hi =>
      have hoff : h.entries.size - 1 - k % h.entries.size = i + 1 := Option.some.inj hi
      rw [if_neg (by omega)]
      omega

-- What the next step back gives when `k` have been made. Answers and end of a whole run are read off it.
theorem recallPrevious_performAll (hidle : h.cursor = none) (hsome : h.entries.size ≠ 0) (k : Nat) :
    let i := h.entries.size - 1 - k % h.entries.size
    (h.performAll (List.replicate k .previous)).recallPrevious = (h.entries.get? i, h.recallAt i) := by
  induction k with
  | zero =>
      have hback : h.back = h.entries.size - 1 - 0 % h.entries.size := by
        rw [back, hidle, Nat.zero_mod]
        rfl
      exact (recallPrevious_eq hsome).trans (by rw [hback]; rfl)
  | succ k ih =>
      have hstep := recallPrevious_eq (h := h.recallAt (h.entries.size - 1 - k % h.entries.size)) hsome
      rw [back_recallAt hsome] at hstep
      rw [List.replicate_succ', performAll_concat, perform, ih]
      exact hstep

theorem answers_previous (hidle : h.cursor = none) (hsome : h.entries.size ≠ 0) (k : Nat) :
    h.answers (List.replicate k .previous) =
      (List.range k).map fun m => h.entries.get? (h.entries.size - 1 - m % h.entries.size) := by
  induction k with
  | zero => rfl
  | succ k ih =>
      rw [List.replicate_succ', answers_concat, ih, answer, recallPrevious_performAll hidle hsome,
        List.range_succ, List.map_append]
      rfl

theorem performAll_previous (hidle : h.cursor = none) (hsome : h.entries.size ≠ 0) (k : Nat) :
    h.performAll (List.replicate (k + 1) .previous) =
      h.recallAt (h.entries.size - 1 - k % h.entries.size) := by
  rw [List.replicate_succ', performAll_concat, perform, recallPrevious_performAll hidle hsome]

end Back

section Forth

theorem recallNext_of_none (hidle : h.cursor = none) : h.recallNext = ("", h) := by
  obtain ⟨entries, cursor⟩ := h
  subst hidle
  rfl

theorem recallNext_recallAt (h : History) (i : Nat) :
    (h.recallAt i).recallNext =
      if i + 1 < h.entries.size then ((h.entries.get? (i + 1)).getD "", h.recallAt (i + 1))
      else ("", h.resetCursor) := rfl

theorem stays_of_none (hidle : h.cursor = none) (m : Nat) :
    h.performAll (List.replicate m .next) = h ∧
      h.answers (List.replicate m .next) = List.replicate m (some "") := by
  have hnext : h.perform .next = h := congrArg Prod.snd (recallNext_of_none hidle)
  have hanswer : h.answer .next = some "" := by
    rw [answer, recallNext_of_none hidle]
  induction m with
  | zero => exact ⟨rfl, rfl⟩
  | succ m ih =>
      rw [List.replicate_succ, List.replicate_succ, performAll, List.foldl_cons, answers, hnext,
        hanswer]
      exact ⟨ih.1, congrArg (some "" :: ·) ih.2⟩

-- Steps forward lead on to the newest line and behind it, and there they end.
theorem recallNext_performAll (hidle : h.cursor = none) (i j : Nat) :
    ((h.recallAt i).performAll (List.replicate j .next)).recallNext =
      if i + (j + 1) < h.entries.size then
        ((h.entries.get? (i + (j + 1))).getD "", h.recallAt (i + (j + 1)))
      else ("", h) := by
  induction j with
  | zero => exact (h.recallNext_recallAt i).trans (by rw [resetCursor_of_none hidle])
  | succ j ih =>
      rw [List.replicate_succ', performAll_concat, perform, ih]
      split
      · rw [recallNext_recallAt, resetCursor_of_none hidle]
        rfl
      · rw [recallNext_of_none hidle, if_neg (by omega)]

end Forth

-- Back from no recall the lines come from the newest to the oldest, and then the newest again. Forward
-- they come up to the newest, behind it an empty one, and there it stays until the next step back.
theorem recall_circle (hidle : h.cursor = none) (hsome : h.entries.toList ≠ []) {k j : Nat}
    (hk : 0 < k) (hj : 0 < j) :
    let lines := h.entries.toList
    let i := lines.length - 1 - (k - 1) % lines.length
    let back := List.replicate k Step.previous
    let forth := List.replicate j Step.next
    let last := (h.answers (back ++ forth)).getLast?
    let there := h.performAll (back ++ forth)
    h.answers back = (List.range k).map (fun m => lines[lines.length - 1 - m % lines.length]?) ∧
      i < lines.length ∧ h.performAll back = h.recallAt i ∧
      (i + j < lines.length → last = some lines[i + j]? ∧ there = h.recallAt (i + j)) ∧
      (lines.length ≤ i + j → last = some (some "") ∧ there = h ∧
        ∀ m, there.performAll (List.replicate m .next) = there ∧
          there.answers (List.replicate m .next ++ [.previous]) =
            List.replicate m (some "") ++ [lines.getLast?]) := by
  intro lines i back forth last there
  obtain ⟨k, rfl⟩ := Nat.exists_eq_succ_of_ne_zero (Nat.ne_of_gt hk)
  obtain ⟨j, rfl⟩ := Nat.exists_eq_succ_of_ne_zero (Nat.ne_of_gt hj)
  have hlength : h.entries.size = lines.length := h.entries.length_toList.symm
  have hsize : h.entries.size ≠ 0 := by
    rw [hlength]
    exact List.length_eq_zero_iff.not.mpr hsome
  have hi : i = h.entries.size - 1 - k % h.entries.size := by
    rw [hlength]
    rfl
  have hback : h.performAll back = h.recallAt i := by
    rw [hi]
    exact performAll_previous hidle hsize k
  -- The last of the steps forward is the one that decides.
  have hsteps : back ++ forth = back ++ List.replicate j .next ++ [.next] := by
    rw [List.append_assoc, ← List.replicate_succ']
  have hforth := recallNext_performAll hidle i j
  rw [← hback, ← performAll_append, hlength] at hforth
  have hlast : last = some (some (h.performAll (back ++ List.replicate j .next)).recallNext.1) := by
    simp only [last]
    rw [hsteps, answers_concat, List.getLast?_concat, answer]
  have hthere : there = (h.performAll (back ++ List.replicate j .next)).recallNext.2 := by
    simp only [there]
    rw [hsteps, performAll_concat, perform]
  rw [hforth] at hlast hthere
  refine ⟨?_, by omega, hback, fun hless => ?_, fun hmore => ?_⟩
  · simp only [lines, ← h.entries.get?_eq, h.entries.length_toList]
    exact answers_previous hidle hsize (k + 1)
  · have hget : h.entries.get? (i + (j + 1)) = some lines[i + (j + 1)] := by
      rw [h.entries.get?_eq, List.getElem?_eq_getElem hless]
    rw [if_pos hless, hget] at hlast
    rw [if_pos hless] at hthere
    exact ⟨hlast.trans (by rw [List.getElem?_eq_getElem hless]; rfl), hthere⟩
  · rw [if_neg (Nat.not_lt.mpr hmore)] at hlast hthere
    refine ⟨hlast, hthere, fun m => ?_⟩
    have hthere : there = h := hthere
    obtain ⟨hstays, hempty⟩ := stays_of_none hidle m
    have hnewest := congrArg Prod.fst (recallPrevious_performAll hidle hsize 0)
    rw [Nat.zero_mod, Nat.sub_zero, h.entries.get?_eq, hlength, ← List.getLast?_eq_getElem?] at hnewest
    rw [hthere, answers_concat, hstays, hempty, answer]
    exact ⟨rfl, congrArg (_ ++ [·]) hnewest⟩

-- The oldest line has been pushed out. Five steps back go around once, and two steps forward lead
-- behind the newest line, where one step leads to it.
theorem recall_circle_evicted :
    let h := (make 3 (by decide)).performAll
      [.record "dir", .record "cd ..", .record "cls", .record "ls"]
    h.cursor = none ∧ h.entries.toList = ["cd ..", "cls", "ls"] ∧ 0 < 5 ∧ 0 < 1 ∧ 0 < 2 ∧
      h.answers (List.replicate 5 .previous) =
        [some "ls", some "cls", some "cd ..", some "ls", some "cls"] ∧
      (h.answers (List.replicate 5 .previous ++ [.next])).getLast? = some (some "ls") ∧
      (h.answers (List.replicate 5 .previous ++ [.next, .next])).getLast? = some (some "") ∧
      h.performAll (List.replicate 5 .previous ++ [.next, .next]) = h := by
  intro h
  have hlines : h.entries.toList = ["cd ..", "cls", "ls"] := by decide +kernel
  have hsome : h.entries.toList ≠ [] := by simp [hlines]
  obtain ⟨hback, -, -, hone, -⟩ :=
    recall_circle (h := h) (k := 5) (j := 1) rfl hsome (by decide) (by decide)
  obtain ⟨-, -, -, -, htwo⟩ :=
    recall_circle (h := h) (k := 5) (j := 2) rfl hsome (by decide) (by decide)
  rw [hlines] at hback hone htwo
  obtain ⟨hempty, hidle, -⟩ := htwo (by decide)
  exact ⟨rfl, hlines, by decide, by decide, by decide, hback, (hone (by decide)).1, hempty, hidle⟩

end DesktopShell.History

import DesktopShell.Proofs.Path.Canonical
import DesktopShell.Proofs.Path.Follow
import Mathlib.Data.Finset.Max

namespace DesktopShell.Path

variable {p : String} {parts rest : List String} {m : String × String}

-- Whole segments at the front of a path spell the name of a shortcut.
def Spells (parts : List String) (m : String × String) : Prop :=
  m ∈ shortcuts ∧ segments m.1 <+: parts

-- The shortcut that is spelled by the most segments, and the segments behind it.
structure Longest (parts : List String) (m : String × String) (rest : List String) : Prop where
  listed : m ∈ shortcuts
  split : parts = segments m.1 ++ rest
  longest : ∀ m', Spells parts m' → (segments m'.1).length ≤ (segments m.1).length

-- Names of shortcuts are spelled as paths are, and none is given twice.
theorem shortcut?_render_segments (h : m ∈ shortcuts) :
    shortcut? (render (segments m.1)) = some m.2 := by
  have hall : ∀ m ∈ shortcuts, shortcut? (render (segments m.1)) = some m.2 := by decide +kernel
  exact hall m h

theorem shortcut?_render_eq_none_iff (hn : ∀ s ∈ parts, IsName s) :
    shortcut? (render parts) = none ↔ ∀ m ∈ shortcuts, segments m.1 ≠ parts := by
  rw [Option.eq_none_iff_forall_ne_some]
  constructor
  · rintro h m hm rfl
    exact h m.2 (shortcut?_render_segments hm)
  · intro h target htarget
    exact h _ (mem_shortcuts htarget) (segments_render hn)

theorem length_segments_shortcut (h : m ∈ shortcuts) :
    (segments m.1).length = 1 ∨ (segments m.1).length = 2 := by
  have hall : ∀ m ∈ shortcuts, (segments m.1).length = 1 ∨ (segments m.1).length = 2 := by
    decide +kernel
  exact hall m h

theorem exists_longest (h : Spells parts m) : ∃ m rest, Longest parts m rest := by
  classical
  let spelled := shortcuts.toFinset.filter fun m => segments m.1 <+: parts
  have hmem {m : String × String} : m ∈ spelled ↔ Spells parts m := by
    simp [spelled, Spells]
  obtain ⟨m, hm, hmax⟩ := spelled.exists_max_image (fun m => (segments m.1).length) ⟨m, hmem.mpr h⟩
  obtain ⟨hlisted, rest, hsplit⟩ := hmem.mp hm
  exact ⟨m, rest, hlisted, hsplit.symm, fun m' hm' => hmax m' (hmem.mpr hm')⟩

theorem continued?_of_spelled (h : m ∈ shortcuts) (hrest : rest ≠ []) :
    continued? (segments m.1 ++ rest) (segments m.1).length = some (continueFrom m.2 rest) := by
  have hlen : ¬(segments m.1 ++ rest).length ≤ (segments m.1).length := by
    have := List.length_pos_of_ne_nil hrest
    rw [List.length_append]
    omega
  rw [continued?, if_neg hlen, List.take_left, List.drop_left, shortcut?_render_segments h]
  rfl

theorem continued?_of_not_spelled (hn : ∀ s ∈ parts, IsName s) {n : Nat}
    (h : ∀ m, Spells parts m → (segments m.1).length ≠ n) : continued? parts n = none := by
  unfold continued?
  split
  · rfl
  · next hlen =>
      rw [Option.map_eq_none_iff,
        shortcut?_render_eq_none_iff fun s hs => hn s (List.mem_of_mem_take hs)]
      intro m hm hsegments
      refine h m ⟨hm, hsegments ▸ List.take_prefix n parts⟩ ?_
      rw [hsegments, List.length_take]
      omega

theorem followShortcut_of_longest (hn : ∀ s ∈ parts, IsName s) (h : Longest parts m rest) :
    followShortcut (render parts) = if rest = [] then m.2 else continueFrom m.2 rest := by
  obtain ⟨hlisted, rfl, hlongest⟩ := h
  rw [followShortcut_render hn]
  by_cases hrest : rest = []
  · rw [if_pos hrest, hrest, List.append_nil, shortcut?_render_segments hlisted]
    rfl
  · have hwhole : shortcut? (render (segments m.1 ++ rest)) = none := by
      rw [shortcut?_render_eq_none_iff hn]
      intro m' hm' hsegments
      -- A shortcut that spells the whole path would be longer.
      have hle := hlongest m' ⟨hm', hsegments ▸ List.prefix_rfl⟩
      have hpos := List.length_pos_of_ne_nil hrest
      rw [hsegments, List.length_append] at hle
      omega
    rw [if_neg hrest, hwhole, Option.none_or]
    have hhere := continued?_of_spelled hlisted hrest
    rcases length_segments_shortcut hlisted with hone | htwo
    · have hskip : continued? (segments m.1 ++ rest) 2 = none := by
        refine continued?_of_not_spelled hn fun m' hm' => ?_
        have := hlongest m' hm'
        omega
      rw [hone] at hhere
      rw [hskip, hhere]
      rfl
    · rw [htwo] at hhere
      rw [hhere]
      rfl

theorem segments_followShortcut_of_longest (hn : ∀ s ∈ parts, IsName s) (h : Longest parts m rest) :
    segments (followShortcut (render parts)) = segments m.2 ++ rest := by
  have hrest : ∀ s ∈ rest, IsName s := by
    intro s hs
    exact hn s (h.split ▸ List.mem_append_right _ hs)
  rw [followShortcut_of_longest hn h]
  split
  · next hnil => rw [hnil, List.append_nil]
  · exact segments_continueFrom hrest

theorem Spells.not_isDirect (h : Spells parts m) : ¬IsDirect parts := by
  obtain ⟨hlisted, rest, rfl⟩ := h
  have hall : ∀ m ∈ shortcuts,
      ((segments m.1).head?.bind fun first => shortcut? ("/" ++ first)) ≠ none := by
    decide +kernel
  intro hdirect
  apply hall m hlisted
  cases hsegments : segments m.1 with
  | nil => rfl
  | cons first more =>
      rw [hsegments] at hdirect
      exact hdirect first rfl

-- A path moves exactly when whole segments of it are a shortcut.
theorem followShortcut_render_eq_iff (hn : ∀ s ∈ parts, IsName s) :
    followShortcut (render parts) = render parts ↔ ∀ m, ¬Spells parts m := by
  constructor
  · intro hstays m hspelled
    have hmoved := segments_followShortcut hn
    rw [hstays, segments_render hn] at hmoved
    exact expand_ne hspelled.not_isDirect hmoved.symm
  · intro hnone
    have hwhole : shortcut? (render parts) = none :=
      (shortcut?_render_eq_none_iff hn).mpr fun m hm hsegments =>
        hnone m ⟨hm, hsegments ▸ List.prefix_rfl⟩
    have hskip (n : Nat) : continued? parts n = none :=
      continued?_of_not_spelled hn fun m hm => absurd hm (hnone m)
    rw [followShortcut_render hn, hwhole, hskip, hskip]
    rfl

-- Of the shortcuts that a canonical path starts with the longest is followed, to the letter, and
-- a path that starts with none stays as it is.
theorem followShortcut_longest (h : IsCanonical p) :
    (∀ m, Spells (segments p) m → ∃ m' rest, Longest (segments p) m' rest) ∧
      (∀ m rest, Longest (segments p) m rest →
        segments (followShortcut p) = segments m.2 ++ rest ∧
          followShortcut p = if rest = [] then m.2 else continueFrom m.2 rest) ∧
      (followShortcut p = p ↔ ∀ m, ¬Spells (segments p) m) := by
  have hn : ∀ s ∈ segments p, IsName s := fun _ => isName_of_mem_segments
  have hp : render (segments p) = p := normalize_of_isCanonical h
  refine ⟨fun _ => exists_longest, fun m rest hlongest => ?_, ?_⟩
  · have hsegments := segments_followShortcut_of_longest hn hlongest
    have htext := followShortcut_of_longest hn hlongest
    rw [hp] at hsegments htext
    exact ⟨hsegments, htext⟩
  · have hstays := followShortcut_render_eq_iff hn
    rwa [hp] at hstays

-- Two shortcuts fit, and behind the longer one comes the name of a third. The name of a folder
-- that only starts like a shortcut is none.
theorem followShortcut_longest_third :
    IsCanonical "/My Computer/C:/Desktop" ∧
      Longest (segments "/My Computer/C:/Desktop") ("/My Computer/C:", "/C:/") ["Desktop"] ∧
      followShortcut "/My Computer/C:/Desktop" = "/C:/Desktop" ∧
      IsCanonical "/Desktop.old/C:" ∧ followShortcut "/Desktop.old/C:" = "/Desktop.old/C:" := by
  have hthird : IsCanonical "/My Computer/C:/Desktop" := ⟨by decide, by decide, by decide⟩
  have hold : IsCanonical "/Desktop.old/C:" := ⟨by decide, by decide, by decide⟩
  have hall : ∀ m ∈ shortcuts, (segments m.1).length ≤ 2 := by decide +kernel
  have hlongest : Longest (segments "/My Computer/C:/Desktop") ("/My Computer/C:", "/C:/")
      ["Desktop"] := ⟨by decide, by decide +kernel, fun m hm => hall m hm.1⟩
  refine ⟨hthird, hlongest, ?_, hold, (followShortcut_longest hold).2.2.mpr fun m hm => ?_⟩
  · rw [((followShortcut_longest hthird).2.1 _ _ hlongest).2]
    decide
  · have hnone : ∀ m ∈ shortcuts, ¬segments m.1 <+: segments "/Desktop.old/C:" := by decide +kernel
    exact hnone m hm.1 hm.2

end DesktopShell.Path

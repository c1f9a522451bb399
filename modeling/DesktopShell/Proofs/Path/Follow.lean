import DesktopShell.Proofs.Path.Segments

namespace DesktopShell.Path

-- Where a path of these segments leads when its first one is a shortcut.
def expand : List String → List String
  | [] => []
  | first :: rest =>
      match shortcut? ("/" ++ first) with
      | some target => segments target ++ rest
      | none => first :: rest

-- Segments that denote the item at just this place, since no shortcut comes first.
def IsDirect (parts : List String) : Prop :=
  ∀ first ∈ parts.head?, shortcut? ("/" ++ first) = none

theorem expand_of_isDirect {parts : List String} (h : IsDirect parts) : expand parts = parts := by
  cases parts with
  | nil => rfl
  | cons first rest =>
      have hfirst : shortcut? ("/" ++ first) = none := h first rfl
      rw [expand, hfirst]

theorem expand_append {parts : List String} (h : parts ≠ []) (rest : List String) :
    expand (parts ++ rest) = expand parts ++ rest := by
  obtain ⟨first, more, rfl⟩ := List.exists_cons_of_ne_nil h
  rw [List.cons_append, expand, expand]
  cases shortcut? ("/" ++ first) with
  | none => rfl
  | some target => exact (List.append_assoc _ _ _).symm

theorem mem_shortcuts {p target : String} (h : shortcut? p = some target) :
    (p, target) ∈ shortcuts := by
  obtain ⟨before, after, he, -⟩ := List.lookup_eq_some_iff.mp h
  rw [he]
  exact List.mem_append_right before List.mem_cons_self

-- No shortcut leads to the place that bears its own name.
theorem expand_ne {parts : List String} (h : ¬IsDirect parts) : expand parts ≠ parts := by
  cases parts with
  | nil => exact absurd (fun _ hfirst => by simp at hfirst) h
  | cons first rest =>
      intro he
      cases hs : shortcut? ("/" ++ first) with
      | none =>
          apply h
          intro s hs'
          rwa [← Option.some.inj hs']
      | some target =>
          rw [expand, hs] at he
          have hsame : segments target = [first] := List.append_cancel_right he
          have hall : ∀ m ∈ shortcuts, ∀ s ∈ (segments m.2).head?, m.1 ≠ "/" ++ s := by decide
          have hfirst : first ∈ (segments target).head? := by
            rw [hsame]
            rfl
          exact hall _ (mem_shortcuts hs) first hfirst rfl

-- Only one shortcut has a second segment, and it leads where the first segment alone would.
theorem segments_shortcut? {parts : List String} {target : String} (hn : ∀ s ∈ parts, IsName s)
    (h : shortcut? (render parts) = some target) : segments target = expand parts := by
  have hall : ∀ m ∈ shortcuts, segments m.2 = expand (segments m.1) := by decide +kernel
  have hsame := hall _ (mem_shortcuts h)
  rwa [segments_render hn] at hsame

theorem segments_continueFrom {target : String} {rest : List String} (hn : ∀ s ∈ rest, IsName s) :
    segments (continueFrom target rest) = segments target ++ rest := by
  unfold continueFrom
  split
  · next hlast =>
      obtain ⟨front, hfront⟩ := List.getLast?_eq_some_iff.mp hlast
      have htarget : target = String.ofList front ++ "/" := by
        rw [← String.ofList_toList (s := target), hfront, String.ofList_append]
      have hself := segments_append_slash (String.ofList front) ""
      rw [String.append_empty, ← htarget, segments_empty, List.append_nil] at hself
      rw [htarget, segments_append_slash, segments_intercalate, flatMap_segments hn, ← hself, htarget]
  · rw [segments_append_slash, segments_intercalate, flatMap_segments hn]

theorem render_singleton (s : String) : render [s] = "/" ++ s := by
  simp [render]

-- Where a path of these segments leads when the first `n` are a shortcut and more come behind them.
def continued? (parts : List String) (n : Nat) : Option String :=
  if parts.length ≤ n then none
  else (shortcut? (render (parts.take n))).map (continueFrom · (parts.drop n))

theorem followShortcut_render {parts : List String} (hn : ∀ s ∈ parts, IsName s) :
    followShortcut (render parts) =
      ((shortcut? (render parts)).or ((continued? parts 2).or (continued? parts 1))).getD
        (render parts) := by
  unfold followShortcut
  rw [segments_render hn]
  cases shortcut? (render parts) with
  | some target => rfl
  | none =>
      show ([2, 1].findSome? (continued? parts)).getD (render parts) = _
      rw [List.findSome?_cons, List.findSome?_cons]
      cases continued? parts 2 with
      | some p => rfl
      | none => cases continued? parts 1 <;> rfl

-- A shortcut that the first segments spell does not care how many they are.
theorem segments_continued {parts : List String} (hn : ∀ s ∈ parts, IsName s) {n : Nat}
    (hpos : 0 < n) {p : String} (h : continued? parts n = some p) : segments p = expand parts := by
  unfold continued? at h
  split at h
  · simp at h
  · next hlen =>
      obtain ⟨target, htarget, rfl⟩ := Option.map_eq_some_iff.mp h
      have hfront := segments_shortcut? (fun s hs => hn s (List.mem_of_mem_take hs)) htarget
      have hne : parts.take n ≠ [] := by
        intro he
        have hzero := congrArg List.length he
        rw [List.length_take, List.length_nil] at hzero
        omega
      rw [segments_continueFrom fun s hs => hn s (List.mem_of_mem_drop hs), hfront,
        ← expand_append hne, List.take_append_drop]

theorem isDirect_of_continued {parts : List String} (hwhole : shortcut? (render parts) = none)
    (hfirst : continued? parts 1 = none) : IsDirect parts := by
  intro first hhead
  rw [← render_singleton]
  cases parts with
  | nil => simp at hhead
  | cons s rest =>
      obtain rfl : s = first := Option.some.inj hhead
      cases rest with
      | nil => exact hwhole
      | cons t rest =>
          rw [continued?, if_neg (by simp)] at hfirst
          exact Option.map_eq_none_iff.mp hfirst

theorem segments_followShortcut {parts : List String} (hn : ∀ s ∈ parts, IsName s) :
    segments (followShortcut (render parts)) = expand parts := by
  rw [followShortcut_render hn]
  cases hwhole : shortcut? (render parts) with
  | some target => exact segments_shortcut? hn hwhole
  | none =>
      rw [Option.none_or]
      -- Two segments are tried before one, but only the first decides where it leads.
      cases htwo : continued? parts 2 with
      | some p => exact segments_continued hn (by decide) htwo
      | none =>
          rw [Option.none_or]
          cases hone : continued? parts 1 with
          | some p => exact segments_continued hn (by decide) hone
          | none =>
              rw [Option.getD_none, segments_render hn,
                expand_of_isDirect (isDirect_of_continued hwhole hone)]

theorem route_eq (p : String) : route p = expand (segments p) := by
  have hn : ∀ s ∈ segments p, IsName s := fun s => isName_of_mem_segments
  exact segments_followShortcut hn

-- Just one shortcut leads to the top.
theorem eq_of_shortcut?_top {first target : String} (h : shortcut? ("/" ++ first) = some target)
    (htop : segments target = []) : first = "My Computer" := by
  have hall : ∀ m ∈ shortcuts, segments m.2 = [] → m.1 = "/" ++ "My Computer" := by decide
  exact String.append_right_inj "/" |>.mp (hall _ (mem_shortcuts h) htop)

theorem expand_eq_nil_iff {parts : List String} :
    expand parts = [] ↔ parts = [] ∨ parts = ["My Computer"] := by
  constructor
  · intro h
    cases parts with
    | nil => exact .inl rfl
    | cons first rest =>
        cases hs : shortcut? ("/" ++ first) with
        | none => simp [expand, hs] at h
        | some target =>
            rw [expand, hs] at h
            obtain ⟨htop, rfl⟩ := List.append_eq_nil_iff.mp h
            rw [eq_of_shortcut?_top hs htop]
            exact .inr rfl
  · rintro (rfl | rfl)
    · rfl
    · decide

-- No shortcut leads to a place that is called like the one to the top.
theorem expand_eq_top_iff {parts : List String} :
    expand parts = ["My Computer"] ↔ parts = ["My Computer", "My Computer"] := by
  constructor
  · intro h
    cases parts with
    | nil => cases h
    | cons first rest =>
        cases hs : shortcut? ("/" ++ first) with
        | none =>
            rw [expand, hs] at h
            obtain ⟨rfl, -⟩ := List.cons.inj h
            exact absurd hs (by decide)
        | some target =>
            have hall : ∀ m ∈ shortcuts, (segments m.2).head? ≠ some "My Computer" := by decide
            have hhead := hall ("/" ++ first, target) (mem_shortcuts hs)
            have h : segments target ++ rest = ["My Computer"] := by
              rwa [expand, hs] at h
            cases htarget : segments target with
            | nil =>
                rw [htarget] at h
                obtain rfl : rest = ["My Computer"] := h
                rw [eq_of_shortcut?_top hs htarget]
            | cons s more =>
                rw [htarget] at h hhead
                obtain ⟨rfl, -⟩ := List.cons.inj h
                exact absurd rfl hhead
  · rintro rfl
    decide

theorem isName_of_mem_step {here : List String} {part s : String} (hhere : ∀ s ∈ here, IsName s)
    (hpart : IsName part) (hs : s ∈ step here part) : IsName s := by
  unfold step at hs
  split at hs
  · exact hhere s hs
  · split at hs
    · exact hhere s (List.dropLast_subset _ hs)
    · rcases List.mem_append.mp hs with hs | hs
      · exact hhere s hs
      · rwa [List.mem_singleton.mp hs]

theorem isName_of_mem_foldl {parts : List String} (hparts : ∀ s ∈ parts, IsName s)
    {here : List String} (hhere : ∀ s ∈ here, IsName s) : ∀ s ∈ parts.foldl step here, IsName s := by
  induction parts generalizing here with
  | nil => exact hhere
  | cons part parts ih =>
      have hpart := hparts part List.mem_cons_self
      exact ih (fun s hs => hparts s (List.mem_cons_of_mem part hs))
        fun s hs => isName_of_mem_step hhere hpart hs

theorem resolve_eq_render (current target : String) :
    resolve current target = render (segments (resolve current target)) := by
  unfold resolve
  split
  · exact congrArg render (segments_normalize target).symm
  · rw [segments_render]
    exact isName_of_mem_foldl (fun s => isName_of_mem_segments) fun s => isName_of_mem_segments

theorem segments_locate (current target : String) :
    segments (locate current target) = expand (segments (resolve current target)) := by
  rw [locate, segments_normalize, resolve_eq_render current target,
    segments_followShortcut fun s => isName_of_mem_segments,
    segments_render fun s => isName_of_mem_segments]

end DesktopShell.Path

import DesktopShell.Path.Shortcut
import Mathlib.Data.List.TakeWhile

namespace DesktopShell.Text

theorem split_eq_splitOn (sep : Char) (cs : List Char) : split sep cs = cs.splitOn sep := by
  induction cs with
  | nil => rfl
  | cons c cs ih =>
      rw [List.splitOn_cons_eq_if_modifyHead, ← ih, split]
      by_cases h : c = sep
      · simp [h]
      · simp only [h, if_false, beq_iff_eq]
        cases hs : split sep cs with
        | nil => exact absurd hs (split_ne_nil sep cs)
        | cons part parts => rfl

theorem not_mem_of_mem_split {sep : Char} {cs part : List Char} (h : part ∈ split sep cs) :
    sep ∉ part := by
  induction cs generalizing part with
  | nil =>
      simp only [split, List.mem_singleton] at h
      simp [h]
  | cons c cs ih =>
      rw [split] at h
      split at h
      · rcases List.mem_cons.mp h with rfl | h
        · simp
        · exact ih h
      · next hc =>
          split at h
          · next hs => exact absurd hs (split_ne_nil sep cs)
          · next first parts hs =>
              rcases List.mem_cons.mp h with rfl | h
              · have hf : sep ∉ first := ih (by simp [hs])
                simp [Ne.symm hc, hf]
              · exact ih (by simp [hs, h])

end DesktopShell.Text

namespace DesktopShell.Path

-- What one segment can be.
def IsName (s : String) : Prop :=
  s ≠ "" ∧ '/' ∉ s.toList

theorem isName_of_mem_segments {p s : String} (h : s ∈ segments p) : IsName s := by
  obtain ⟨part, hp, rfl⟩ := List.mem_map.mp h
  obtain ⟨hs, hne⟩ := List.mem_filter.mp hp
  refine ⟨?_, by simpa using Text.not_mem_of_mem_split hs⟩
  intro he
  have : part = [] := by simpa using congrArg String.toList he
  simp [this] at hne

theorem segments_of_isName {s : String} (h : IsName s) : segments s = [s] := by
  have hne : s.toList ≠ [] := by simpa using h.1
  simp [segments, Text.split_eq_splitOn, List.splitOn_eq_singleton h.2, h.1]

@[simp] theorem segments_empty : segments "" = [] := rfl

@[simp] theorem segments_slash : segments "/" = [] := rfl

-- A slash always stands between two segments.
theorem segments_append_slash (p q : String) :
    segments (p ++ "/" ++ q) = segments p ++ segments q := by
  have h : (p ++ "/" ++ q).toList = p.toList ++ '/' :: q.toList := by simp
  simp only [segments, h, Text.split_eq_splitOn, List.splitOn_append_cons_self,
    List.filter_append, List.map_append]

theorem segments_slash_append (p : String) : segments ("/" ++ p) = segments p := by
  simpa using segments_append_slash "" p

theorem segments_append_slashes (p : String) (n : Nat) :
    segments (p ++ String.ofList (List.replicate n '/')) = segments p := by
  induction n with
  | zero => simp
  | succ n ih =>
      have h := segments_append_slash (p ++ String.ofList (List.replicate n '/')) ""
      rw [List.replicate_succ', String.ofList_append, ← String.append_assoc]
      simpa [ih] using h

-- What is dropped from the end of a folder's path is slashes.
theorem dropEnd_append_slashes (cs : List Char) :
    ∃ n, Text.dropEnd (· = '/') cs ++ List.replicate n '/' = cs := by
  have hall : ∀ c ∈ cs.reverse.takeWhile (· = '/'), c = '/' := by
    intro c hc
    simpa using List.mem_takeWhile_imp hc
  refine ⟨(cs.reverse.takeWhile (· = '/')).length, ?_⟩
  rw [Text.dropEnd, ← List.reverse_replicate, ← List.eq_replicate_of_mem hall,
    ← List.reverse_append, List.takeWhile_append_dropWhile, List.reverse_reverse]

theorem segments_dropEnd_slash (p : String) :
    segments (String.ofList (Text.dropEnd (· = '/') p.toList)) = segments p := by
  obtain ⟨n, hn⟩ := dropEnd_append_slashes p.toList
  have h := segments_append_slashes (String.ofList (Text.dropEnd (· = '/') p.toList)) n
  rw [← String.ofList_append, hn, String.ofList_toList] at h
  exact h.symm

theorem segments_join (folder name : String) :
    segments (join folder name) = segments folder ++ segments name := by
  unfold join
  split
  · next h => rcases h with rfl | rfl <;> simp [segments_slash_append]
  · rw [segments_append_slash, segments_dropEnd_slash]

theorem segments_intercalate (parts : List String) :
    segments ("/".intercalate parts) = parts.flatMap segments := by
  induction parts with
  | nil => simp
  | cons s parts ih =>
      cases parts with
      | nil => simp
      | cons t parts =>
          rw [String.intercalate_cons_cons, segments_append_slash, ih]
          rfl

theorem flatMap_segments {parts : List String} (h : ∀ s ∈ parts, IsName s) :
    parts.flatMap segments = parts := by
  induction parts with
  | nil => rfl
  | cons s parts ih =>
      rw [List.flatMap_cons, segments_of_isName (h s (by simp)),
        ih fun t ht => h t (List.mem_cons_of_mem s ht)]
      rfl

theorem segments_render {parts : List String} (h : ∀ s ∈ parts, IsName s) :
    segments (render parts) = parts := by
  rw [render, segments_slash_append, segments_intercalate, flatMap_segments h]

@[simp] theorem segments_normalize (p : String) : segments (normalize p) = segments p :=
  segments_render fun _ => isName_of_mem_segments

@[simp] theorem segments_parent (p : String) : segments (parent p) = (segments p).dropLast :=
  segments_render fun _ h => isName_of_mem_segments (List.dropLast_subset _ h)

theorem isRoot_iff (p : String) : isRoot p = true ↔ segments p = [] := by
  simp [isRoot]

theorem isName_fileName {p : String} (h : isRoot p = false) : IsName (fileName p) := by
  have hne : segments p ≠ [] := by simpa [isRoot] using h
  rw [fileName, List.getLast?_eq_some_getLast hne, Option.getD_some]
  exact isName_of_mem_segments (List.getLast_mem hne)

theorem isName_of_mem_route {p s : String} (h : s ∈ route p) : IsName s :=
  isName_of_mem_segments h

end DesktopShell.Path

import DesktopShell.Proofs.Path.Segments
import Mathlib.Data.List.Infix

namespace DesktopShell

namespace Text

variable {sep : Char}

theorem split_cons_self (sep : Char) (cs : List Char) : split sep (sep :: cs) = [] :: split sep cs :=
  if_pos rfl

theorem split_cons_of_ne {c : Char} (h : c ≠ sep) {cs part : List Char} {parts : List (List Char)}
    (hs : split sep cs = part :: parts) : split sep (c :: cs) = (c :: part) :: parts := by
  rw [split, if_neg h, hs]

theorem nil_mem_split_iff {cs : List Char} :
    [] ∈ split sep cs ↔ cs = [] ∨ cs.head? = some sep ∨ [] ∈ (split sep cs).tail := by
  cases cs with
  | nil => simp [split]
  | cons c cs =>
      by_cases hc : c = sep
      · subst hc
        simp [split_cons_self]
      · obtain ⟨part, parts, hs⟩ := List.exists_cons_of_ne_nil (split_ne_nil sep cs)
        simp [split_cons_of_ne hc hs, hc]

-- After the first part an empty one stands at the end or between two separators.
theorem nil_mem_tail_split_iff {cs : List Char} :
    [] ∈ (split sep cs).tail ↔ cs.getLast? = some sep ∨ [sep, sep] <:+: cs := by
  induction cs with
  | nil => simp [split]
  | cons c cs ih =>
      have hinfix : [sep, sep] <:+: c :: cs ↔
          (sep = c ∧ cs.head? = some sep) ∨ [sep, sep] <:+: cs := by
        rw [List.infix_cons_iff, List.cons_prefix_cons, List.singleton_prefix_iff_head?_eq_some]
      have hlast : (c :: cs).getLast? = some sep ↔
          (cs = [] ∧ sep = c) ∨ cs.getLast? = some sep := by
        cases cs with
        | nil => simp [eq_comm]
        | cons d cs => simp [List.getLast?_cons_cons]
      by_cases hc : sep = c
      · subst hc
        rw [split_cons_self, List.tail_cons, nil_mem_split_iff, ih, hinfix, hlast, ← or_assoc,
          or_or_or_comm]
        simp
      · obtain ⟨part, parts, hs⟩ := List.exists_cons_of_ne_nil (split_ne_nil sep cs)
        rw [hs, List.tail_cons] at ih
        rw [split_cons_of_ne (Ne.symm hc) hs, List.tail_cons, ih, hinfix, hlast]
        simp [hc]

end Text

namespace Path

-- One slash in front, none at the end but for the root, and no two in a row.
structure IsCanonical (p : String) : Prop where
  leading : p.toList.head? = some '/'
  trailing : p.toList.getLast? = some '/' → p = "/"
  between : ¬['/', '/'] <:+: p.toList

-- Behind the first slash a canonical path has no empty part, but for the root.
theorem isCanonical_iff_split {p : String} :
    IsCanonical p ↔ ∃ cs, p.toList = '/' :: cs ∧ (cs = [] ∨ [] ∉ Text.split '/' cs) := by
  have hends {cs : List Char} (hcs : p.toList = '/' :: cs) :
      [] ∈ Text.split '/' cs ↔ p.toList.getLast? = some '/' ∨ ['/', '/'] <:+: p.toList := by
    rw [← Text.nil_mem_tail_split_iff, hcs, Text.split_cons_self, List.tail_cons]
  constructor
  · intro h
    obtain ⟨cs, hcs⟩ := List.head?_eq_some_iff.mp h.leading
    refine ⟨cs, hcs, or_iff_not_imp_right.mpr fun hempty => ?_⟩
    have htrailing := ((hends hcs).mp (not_not.mp hempty)).resolve_right h.between
    rw [h.trailing htrailing] at hcs
    exact (List.cons.inj hcs).2.symm
  · rintro ⟨cs, hcs, rfl | hnone⟩
    · obtain rfl : p = "/" := String.toList_inj.mp hcs
      exact ⟨rfl, fun _ => rfl, by decide⟩
    · rw [hends hcs, not_or] at hnone
      exact ⟨by rw [hcs]; rfl, fun hlast => absurd hlast hnone.1, hnone.2⟩

theorem toList_render (parts : List String) :
    (render parts).toList = '/' :: ['/'].intercalate (parts.map String.toList) := by
  rw [render, String.toList_append, String.toList_intercalate]
  rfl

-- The spelling of a path is canonical, and a canonical path is spelled as it is.
theorem isCanonical_render {parts : List String} (h : ∀ s ∈ parts, IsName s) :
    IsCanonical (render parts) := by
  refine isCanonical_iff_split.mpr ⟨_, toList_render parts, ?_⟩
  by_cases hroot : parts = []
  · rw [hroot]
    exact .inl rfl
  · have hslash : ∀ l ∈ parts.map String.toList, '/' ∉ l := by
      intro l hl
      obtain ⟨s, hs, rfl⟩ := List.mem_map.mp hl
      exact (h s hs).2
    rw [Text.split_eq_splitOn, List.splitOn_intercalate '/' hslash (by simpa using hroot)]
    refine .inr fun hempty => ?_
    obtain ⟨s, hs, he⟩ := List.mem_map.mp hempty
    exact (h s hs).1 (String.toList_eq_nil_iff.mp he)

theorem isCanonical_normalize (p : String) : IsCanonical (normalize p) :=
  isCanonical_render fun _ => isName_of_mem_segments

theorem normalize_of_isCanonical {p : String} (h : IsCanonical p) : normalize p = p := by
  obtain ⟨cs, hcs, hparts⟩ := isCanonical_iff_split.mp h
  rw [normalize, ← String.toList_inj, toList_render, segments, hcs, Text.split_cons_self,
    List.filter_cons_of_neg (by simp), List.map_map]
  congr 1
  rcases hparts with rfl | hnone
  · rfl
  · have hall : (Text.split '/' cs).filter (!·.isEmpty) = Text.split '/' cs := by
      refine List.filter_eq_self.mpr fun part hpart => ?_
      have hne : part ≠ [] := fun he => hnone (he ▸ hpart)
      simpa using hne
    have hid : String.toList ∘ String.ofList = id := funext fun _ => String.toList_ofList
    rw [hall, hid, List.map_id, Text.split_eq_splitOn, List.intercalate_splitOn]

end Path

end DesktopShell

import DesktopShell.Proofs.Path.Canonical

-- The spellings of a path and its canonical one, and how a canonical path is put together from the
-- path of the folder that it lies in and a name.
namespace DesktopShell.Path

-- A text names these, one after the other, and consists of the names and slashes only. Where a name
-- ends there is a slash, or the text ends.
inductive HasNames : List Char → List String → Prop
  | nil : HasNames [] []
  | slash {cs : List Char} {names : List String} (rest : HasNames cs names) :
      HasNames ('/' :: cs) names
  | last {part : List Char} (nonempty : part ≠ []) (whole : '/' ∉ part) :
      HasNames part [String.ofList part]
  | name {part cs : List Char} {names : List String} (nonempty : part ≠ []) (whole : '/' ∉ part)
      (rest : HasNames cs names) : HasNames (part ++ '/' :: cs) (String.ofList part :: names)

section HasNames

variable {c : Char} {cs part : List Char} {p : String} {names : List String}

theorem isName_ofList (nonempty : part ≠ []) (whole : '/' ∉ part) : IsName (String.ofList part) := by
  refine ⟨fun he => nonempty ?_, ?_⟩
  · simpa using congrArg String.toList he
  · rwa [String.toList_ofList]

theorem HasNames.segments_eq (h : HasNames cs names) : segments (String.ofList cs) = names := by
  induction h with
  | nil => rfl
  | @slash cs names _ ih =>
      rw [← List.singleton_append, String.ofList_append]
      exact (segments_slash_append _).trans ih
  | last nonempty whole => exact segments_of_isName (isName_ofList nonempty whole)
  | @name part cs names nonempty whole _ ih =>
      have hpart := segments_of_isName (isName_ofList nonempty whole)
      rw [← List.singleton_append, String.ofList_append, String.ofList_append, ← String.append_assoc]
      exact (segments_append_slash _ _).trans (by rw [hpart, ih, List.singleton_append])

-- A character in front makes the first name longer, or is one of its own.
theorem HasNames.exists_cons (h : HasNames cs names) (hc : c ≠ '/') :
    ∃ names', HasNames (c :: cs) names' := by
  have hwhole {part : List Char} (whole : '/' ∉ part) : '/' ∉ c :: part :=
    List.not_mem_cons_of_ne_of_not_mem hc.symm whole
  cases h with
  | nil => exact ⟨_, .last (List.cons_ne_nil c []) (hwhole List.not_mem_nil)⟩
  | slash rest => exact ⟨_, .name (List.cons_ne_nil c []) (hwhole List.not_mem_nil) rest⟩
  | last _ whole => exact ⟨_, .last (List.cons_ne_nil c _) (hwhole whole)⟩
  | name _ whole rest => exact ⟨_, .name (List.cons_ne_nil c _) (hwhole whole) rest⟩

theorem exists_hasNames (cs : List Char) : ∃ names, HasNames cs names := by
  induction cs with
  | nil => exact ⟨[], .nil⟩
  | cons c cs ih =>
      obtain ⟨names, hcs⟩ := ih
      by_cases hc : c = '/'
      · exact ⟨names, hc ▸ hcs.slash⟩
      · exact hcs.exists_cons hc

-- The names of a text are its segments, so it has one list of them and no other.
theorem hasNames_iff : HasNames p.toList names ↔ segments p = names := by
  constructor
  · intro h
    rw [← h.segments_eq, String.ofList_toList]
  · rintro rfl
    obtain ⟨names, h⟩ := exists_hasNames p.toList
    have hnames := h.segments_eq
    rw [String.ofList_toList] at hnames
    rwa [hnames]

end HasNames

section Canonical

variable {p q name : String}

theorem normalize_eq_iff : normalize p = normalize q ↔ segments p = segments q := by
  refine ⟨fun h => ?_, congrArg render⟩
  rw [← segments_normalize p, h, segments_normalize]

theorem IsCanonical.eq_of_segments (hp : IsCanonical p) (hq : IsCanonical q)
    (h : segments p = segments q) : p = q := by
  rw [← normalize_of_isCanonical hp, ← normalize_of_isCanonical hq, normalize_eq_iff.mpr h]

theorem IsCanonical.segments_eq_nil_iff (h : IsCanonical p) : segments p = [] ↔ p = "/" := by
  constructor
  · intro hp
    rw [← normalize_of_isCanonical h, normalize, hp]
    rfl
  · rintro rfl
    rfl

theorem render_concat {parts : List String} (h : parts ≠ []) (name : String) :
    render (parts ++ [name]) = render parts ++ "/" ++ name := by
  rw [render, render, String.append_assoc, String.append_assoc]
  congr 1
  induction parts with
  | nil => exact absurd rfl h
  | cons first parts ih =>
      cases parts with
      | nil => simp [String.intercalate_cons_cons, String.append_assoc]
      | cons second parts =>
          rw [List.cons_append, List.cons_append, String.intercalate_cons_cons,
            String.intercalate_cons_cons, ← List.cons_append, ih (List.cons_ne_nil _ _)]
          simp only [String.append_assoc]

-- Below the root there is no slash at the end of a folder's path to be dropped.
theorem IsCanonical.join_eq (h : IsCanonical p) (name : String) :
    join p name = render (segments p ++ [name]) := by
  unfold join
  by_cases hroot : p = "/"
  · rw [if_pos (.inl hroot), hroot]
    simp [render]
  · have hempty : p ≠ "" := by
      rintro rfl
      cases h.leading
    have hends : p.toList.getLast? ≠ some '/' := fun hlast => hroot (h.trailing hlast)
    have hp : render (segments p) = p := normalize_of_isCanonical h
    rw [if_neg (not_or.mpr ⟨hroot, hempty⟩), Text.dropEnd_of_getLast?_ne hends,
      String.ofList_toList, render_concat (mt h.segments_eq_nil_iff.mp hroot), hp]

theorem isCanonical_join (hp : IsCanonical p) (hn : IsName name) : IsCanonical (join p name) := by
  rw [hp.join_eq]
  refine isCanonical_render fun s hs => ?_
  rcases List.mem_append.mp hs with hs | hs
  · exact isName_of_mem_segments hs
  · rwa [List.mem_singleton.mp hs]

theorem isCanonical_parent (p : String) : IsCanonical (parent p) :=
  isCanonical_render fun _ hs => isName_of_mem_segments (List.dropLast_subset _ hs)

theorem segments_join_of_isName (p : String) (hn : IsName name) :
    segments (join p name) = segments p ++ [name] := by
  rw [segments_join, segments_of_isName hn]

theorem parent_join (hp : IsCanonical p) (hn : IsName name) : parent (join p name) = p := by
  rw [parent, segments_join_of_isName p hn, List.dropLast_concat]
  exact normalize_of_isCanonical hp

theorem fileName_join (p : String) (hn : IsName name) : fileName (join p name) = name := by
  rw [fileName, segments_join_of_isName p hn, List.getLast?_concat, Option.getD_some]

theorem IsCanonical.isName_fileName (hp : IsCanonical p) (hroot : p ≠ "/") :
    IsName (fileName p) := by
  have hne : segments p ≠ [] := mt hp.segments_eq_nil_iff.mp hroot
  exact Path.isName_fileName (by simpa [isRoot] using hne)

theorem join_parent_fileName (hp : IsCanonical p) (hroot : p ≠ "/") :
    join (parent p) (fileName p) = p := by
  have hne : segments p ≠ [] := mt hp.segments_eq_nil_iff.mp hroot
  have hname := hp.isName_fileName hroot
  refine (isCanonical_join (isCanonical_parent p) hname).eq_of_segments hp ?_
  rw [segments_join_of_isName _ hname, segments_parent, fileName,
    List.getLast?_eq_some_getLast hne, Option.getD_some, List.dropLast_append_getLast hne]

end Canonical

-- Every text has one list of names. Normalizing a text gives a canonical path with the same names, and
-- the same path for just the texts that have them; a canonical path stays as it is. Below the root a
-- canonical path is that of its folder joined with its name, and a canonical path joined with any name
-- is one below the root, whose folder and name are these.
theorem canonical_normalize_join :
    (∀ a : String, ∃! names, HasNames a.toList names) ∧
      (∀ a, IsCanonical (normalize a) ∧ normalize (normalize a) = normalize a ∧
        ∀ names, HasNames (normalize a).toList names ↔ HasNames a.toList names) ∧
      (∀ a b, normalize a = normalize b ↔
        ∃ names, HasNames a.toList names ∧ HasNames b.toList names) ∧
      (∀ p, IsCanonical p → normalize p = p) ∧
      (∀ p, IsCanonical p → p ≠ "/" →
        IsCanonical (parent p) ∧ IsName (fileName p) ∧ join (parent p) (fileName p) = p) ∧
      ∀ p name, IsCanonical p → IsName name →
        IsCanonical (join p name) ∧ join p name ≠ "/" ∧
          parent (join p name) = p ∧ fileName (join p name) = name := by
  refine ⟨fun a => ?_, fun a => ?_, fun a b => ?_, fun p => normalize_of_isCanonical,
    fun p hp hroot => ?_, fun p name hp hn => ?_⟩
  · simp only [hasNames_iff]
    exact existsUnique_eq'
  · have hcanonical := isCanonical_normalize a
    refine ⟨hcanonical, normalize_of_isCanonical hcanonical, fun names => ?_⟩
    rw [hasNames_iff, hasNames_iff, segments_normalize]
  · simp only [hasNames_iff, normalize_eq_iff]
    exact ⟨fun h => ⟨_, h, rfl⟩, fun ⟨_, ha, hb⟩ => ha.trans hb.symm⟩
  · exact ⟨isCanonical_parent p, hp.isName_fileName hroot, join_parent_fileName hp hroot⟩
  · refine ⟨isCanonical_join hp hn, fun htop => ?_, parent_join hp hn, fileName_join p hn⟩
    have hsegments := segments_join_of_isName p hn
    rw [htop, segments_slash] at hsegments
    exact List.append_ne_nil_of_right_ne_nil _ (List.cons_ne_nil _ _) hsegments.symm

-- A name that is taken for a step up when a path is walked is a name like any other here.
theorem canonical_normalize_join_dots :
    IsCanonical "/C:/.." ∧ "/C:/.." ≠ "/" ∧ IsName "a. b" ∧
      HasNames "C:///..//".toList ["C:", ".."] ∧ HasNames "/C:/..".toList ["C:", ".."] ∧
      normalize "C:///..//" = "/C:/.." ∧
      parent "/C:/.." = "/C:" ∧ fileName "/C:/.." = ".." ∧
      join (parent "/C:/..") (fileName "/C:/..") = "/C:/.." ∧
      join "/C:/.." "a. b" = "/C:/../a. b" ∧ IsCanonical (join "/C:/.." "a. b") ∧
      parent (join "/C:/.." "a. b") = "/C:/.." ∧ fileName (join "/C:/.." "a. b") = "a. b" := by
  obtain ⟨-, -, halike, hfixed, hapart, hjoined⟩ := canonical_normalize_join
  have hp : IsCanonical "/C:/.." := ⟨by decide, by decide, by decide⟩
  have hroot : "/C:/.." ≠ "/" := by decide
  have hn : IsName "a. b" := ⟨by decide, by decide⟩
  have hodd : HasNames "C:///..//".toList ["C:", ".."] := hasNames_iff.mpr (by decide)
  have hnames : HasNames "/C:/..".toList ["C:", ".."] := hasNames_iff.mpr (by decide)
  obtain ⟨hcanonical, -, hparent, hname⟩ := hjoined _ _ hp hn
  exact ⟨hp, hroot, hn, hodd, hnames, ((halike _ _).mpr ⟨_, hodd, hnames⟩).trans (hfixed _ hp),
    by decide, by decide, (hapart _ hp hroot).2.2, by decide, hcanonical, hparent, hname⟩

end DesktopShell.Path

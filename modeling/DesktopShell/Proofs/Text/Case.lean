import DesktopShell.Proofs.Text.Lowercase

namespace DesktopShell.Text

-- Lower-casing a character does no more to it than to a letter of ASCII.
def IsSteady (c : Char) : Prop :=
  isAscii c = true ∨ c ≠ 'Σ' ∧ lowerChar c = [c]

instance (c : Char) : Decidable (IsSteady c) :=
  inferInstanceAs (Decidable (_ ∨ _))

section Letter

variable {c d : Char}

theorem toLower_of_not_isAscii (h : isAscii c = false) : c.toLower = c := by
  have hhigh : 0x80 ≤ c.val.toNat := Nat.not_lt.mp (of_decide_eq_false h)
  have hZ : ¬('A'.val ≤ c.val ∧ c.val ≤ 'Z'.val) := by
    rintro ⟨-, hle⟩
    have : c.val.toNat ≤ 90 := UInt32.le_iff_toNat_le.mp hle
    omega
  exact dif_neg hZ

theorem isAscii_toLower_eq (c : Char) : isAscii c.toLower = isAscii c := by
  cases h : isAscii c with
  | true => exact isAscii_toLower h
  | false => rw [toLower_of_not_isAscii h, h]

theorem toLower_toLower (c : Char) : c.toLower.toLower = c.toLower := by
  cases h : isAscii c with
  | true =>
      have hall : ∀ n < 0x80, (Char.ofNat n).toLower.toLower = (Char.ofNat n).toLower := by decide
      rw [← Char.ofNat_toNat c]
      exact hall c.toNat (of_decide_eq_true h)
  | false => rw [toLower_of_not_isAscii h, toLower_of_not_isAscii h]

theorem isAscii_congr (h : c.toLower = d.toLower) : isAscii c = isAscii d := by
  rw [← isAscii_toLower_eq, h, isAscii_toLower_eq]

-- Beyond ASCII there is no case to be ignored.
theorem eq_of_toLower_eq (h : c.toLower = d.toLower) (hc : isAscii c = false) : c = d := by
  have hd : isAscii d = false := (isAscii_congr h).symm.trans hc
  rwa [toLower_of_not_isAscii hc, toLower_of_not_isAscii hd] at h

theorem isSteady_congr (h : c.toLower = d.toLower) : IsSteady c ↔ IsSteady d := by
  cases hc : isAscii c with
  | true => exact iff_of_true (.inl hc) (.inl ((isAscii_congr h).symm.trans hc))
  | false => rw [eq_of_toLower_eq h hc]

-- A character that is not steady is told from its lower case at once.
theorem head_lowerChar_ne (hc : isAscii c = false) (h : lowerChar c ≠ [c]) :
    ∃ d ds, lowerChar c = d :: ds ∧ d.toLower ≠ c := by
  have hhigh : ¬c.toNat < 0x80 := of_decide_eq_false hc
  unfold lowerChar at h ⊢
  rw [if_neg hhigh] at h ⊢
  split at h
  · next hdotted =>
      subst hdotted
      exact ⟨_, _, if_pos rfl, by decide⟩
  · next hdotted =>
      rw [if_neg hdotted]
      refine ⟨_, [], rfl, fun heq => h ?_⟩
      have hlow : isAscii (Char.ofNat (lowerCode c.toNat)) = false := by
        rw [← isAscii_toLower_eq, heq, hc]
      rw [toLower_of_not_isAscii hlow] at heq
      rw [heq]

end Letter

section Word

variable {before cs : List Char}

-- Lower-casing changes nothing but the case of ASCII letters exactly when every character is steady.
theorem map_toLower_lowerFrom_iff :
    (lowerFrom before cs).map Char.toLower = cs.map Char.toLower ↔ ∀ c ∈ cs, IsSteady c := by
  induction cs generalizing before with
  | nil => simp [lowerFrom]
  | cons c cs ih =>
      rw [lowerFrom, List.map_append, List.map_cons, List.forall_mem_cons]
      by_cases hsteady : IsSteady c
      · have hhead : (if c = 'Σ' then
            if meetsLetter before && !meetsLetter cs then ['ς'] else ['σ'] else lowerChar c).map
              Char.toLower = [c.toLower] := by
          rcases hsteady with hc | ⟨hsigma, hkept⟩
          · rw [if_neg (ne_sigma_of_isAscii hc), lowerChar_of_isAscii hc, List.map_singleton,
              toLower_toLower]
          · rw [if_neg hsigma, hkept, List.map_singleton]
        rw [hhead, List.singleton_append, List.cons.injEq, ih]
        simp [hsteady]
      · refine iff_of_false (fun heq => ?_) fun h => hsteady h.1
        by_cases hsigma : c = 'Σ'
        · subst hsigma
          have hforms : 'ς'.toLower ≠ 'Σ'.toLower ∧ 'σ'.toLower ≠ 'Σ'.toLower := by decide
          rw [if_pos rfl] at heq
          split at heq
          · exact hforms.1 (List.cons.inj heq).1
          · exact hforms.2 (List.cons.inj heq).1
        · obtain ⟨hc, hkept⟩ := not_or.mp hsteady
          have hc : isAscii c = false := Bool.eq_false_iff.mpr hc
          obtain ⟨d, ds, hd, hne⟩ := head_lowerChar_ne hc fun h => hkept ⟨hsigma, h⟩
          rw [if_neg hsigma, hd, toLower_of_not_isAscii hc] at heq
          exact hne (List.cons.inj heq).1

theorem sameIgnoringAsciiCase_iff {a b : String} :
    sameIgnoringAsciiCase a b = true ↔ a.toList.map Char.toLower = b.toList.map Char.toLower :=
  beq_iff_eq

theorem same_lowercase_iff {word : String} :
    sameIgnoringAsciiCase (lowercase word) word = true ↔ ∀ c ∈ word.toList, IsSteady c := by
  rw [sameIgnoringAsciiCase_iff, toList_lowercase]
  exact map_toLower_lowerFrom_iff

-- What does not depend on the case of ASCII letters holds of all characters of both words.
theorem forall_of_map_toLower {P : Char → Prop} (hP : ∀ {c d : Char}, c.toLower = d.toLower → P c → P d)
    {ds : List Char} (h : cs.map Char.toLower = ds.map Char.toLower) (hcs : ∀ c ∈ cs, P c) :
    ∀ d ∈ ds, P d := by
  intro d hd
  have hmem : d.toLower ∈ cs.map Char.toLower := h ▸ List.mem_map_of_mem hd
  obtain ⟨c, hc, hcd⟩ := List.mem_map.mp hmem
  exact hP hcd (hcs c hc)

theorem isSteady_of_same {a b : String} (h : sameIgnoringAsciiCase a b = true)
    (hb : ∀ c ∈ b.toList, IsSteady c) : ∀ c ∈ a.toList, IsSteady c :=
  forall_of_map_toLower (fun hcd => (isSteady_congr hcd).mp) (sameIgnoringAsciiCase_iff.mp h).symm hb

-- A Kelvin sign as the letter that it looks like.
def thawChar (c : Char) : Char :=
  if c = kelvin then 'k' else c

def thaw (word : String) : String :=
  String.ofList (word.toList.map thawChar)

theorem lowerFrom_of_thawed (h : ∀ c ∈ cs, isAscii (thawChar c) = true) :
    lowerFrom before cs = (cs.map thawChar).map Char.toLower := by
  rw [List.map_map]
  refine lowerFrom_eq_map fun c hc => ?_
  have hthawed := h c hc
  rw [Function.comp_apply]
  by_cases hkelvin : c = kelvin
  · subst hkelvin
    exact ⟨by decide, by decide +kernel⟩
  · rw [thawChar, if_neg hkelvin] at hthawed ⊢
    exact ⟨ne_sigma_of_isAscii hthawed, lowerChar_of_isAscii hthawed⟩

theorem isAscii_thawChar_of_lowerFrom (h : ∀ d ∈ lowerFrom before cs, isAscii d = true) :
    ∀ c ∈ cs, isAscii (thawChar c) = true := by
  have hthaw {c d : Char} (hlower : LowersTo c d) : isAscii (thawChar c) = true ∧ LowersTo c d := by
    refine ⟨?_, hlower⟩
    rcases hlower with ⟨hascii, -⟩ | ⟨rfl, -⟩
    · have hkelvin : c ≠ kelvin := by
        rintro rfl
        exact absurd hascii (by decide)
      rwa [thawChar, if_neg hkelvin]
    · decide
  exact ((List.forall₂_and_left cs _).mp ((forall₂_lowersTo h).imp fun _ _ => hthaw)).1

-- A word in ASCII is the lower case of another word, but for the case of its own letters, exactly
-- when it is that word with letters for Kelvin signs.
theorem same_lowercase_eq_thaw {name : String} (hname : ∀ c ∈ name.toList, isAscii c = true)
    (word : String) :
    sameIgnoringAsciiCase name (lowercase word) = sameIgnoringAsciiCase name (thaw word) := by
  have hascii {cs : List Char} (h : name.toList.map Char.toLower = cs.map Char.toLower) :
      ∀ c ∈ cs, isAscii c = true :=
    forall_of_map_toLower (fun hcd => (isAscii_congr hcd).symm.trans) h hname
  have hthawed (h : ∀ c ∈ word.toList, isAscii (thawChar c) = true) :
      (lowerFrom [] word.toList).map Char.toLower =
        (word.toList.map thawChar).map Char.toLower := by
    rw [lowerFrom_of_thawed h, List.map_map]
    exact List.map_congr_left fun c _ => toLower_toLower c
  rw [Bool.eq_iff_iff, sameIgnoringAsciiCase_iff, sameIgnoringAsciiCase_iff, toList_lowercase, thaw,
    String.toList_ofList]
  constructor
  · intro h
    rw [h, hthawed (isAscii_thawChar_of_lowerFrom (hascii h))]
  · intro h
    rw [h, hthawed (List.forall_mem_map.mp (hascii h))]

end Word

end DesktopShell.Text

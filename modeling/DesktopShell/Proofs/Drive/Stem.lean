import DesktopShell.Drive.Item
import DesktopShell.Proofs.Text.Bytes
import DesktopShell.Proofs.Text.Lowercase

namespace DesktopShell

namespace Drive

variable {name ext stem suffix : String}

theorem splitLast?_dot (stem : String) (h : '.' ∉ suffix.toList) :
    Text.splitLast? '.' (stem ++ "." ++ suffix).toList = some (stem.toList, suffix.toList) := by
  rw [String.toList_append, String.toList_append, List.append_assoc]
  exact Text.splitLast?_append stem.toList h

-- There is only one last dot.
theorem dot_inj {stem' suffix' : String} (h : '.' ∉ suffix.toList) (h' : '.' ∉ suffix'.toList)
    (hsame : stem ++ "." ++ suffix = stem' ++ "." ++ suffix') : stem = stem' ∧ suffix = suffix' := by
  have hsplit := splitLast?_dot stem h
  rw [hsame, splitLast?_dot stem' h'] at hsplit
  obtain ⟨hstem, hsuffix⟩ := Prod.mk.inj (Option.some.inj hsplit)
  exact ⟨(String.toList_inj.mp hstem).symm, (String.toList_inj.mp hsuffix).symm⟩

theorem extensionOf?_eq_some_iff :
    extensionOf? name = some ext ↔ ∃ stem suffix, name = stem ++ "." ++ suffix ∧
      '.' ∉ suffix.toList ∧ stem ≠ "" ∧ suffix ≠ "" ∧ Text.lowercase suffix = ext := by
  constructor
  · intro h
    unfold extensionOf? at h
    split at h
    · next before after hsplit =>
        obtain ⟨hname, hlast⟩ := Text.splitLast?_eq_some hsplit
        split at h
        · cases h
        · next hne =>
            obtain ⟨hbefore, hafter⟩ := not_or.mp hne
            refine ⟨String.ofList before, String.ofList after, ?_, ?_, ?_, ?_, Option.some.inj h⟩
            · rw [← String.ofList_toList (s := name), hname, ← String.ofList_append,
                ← List.singleton_append, ← List.append_assoc, String.ofList_append]
            · rwa [String.toList_ofList]
            · simpa using hbefore
            · simpa using hafter
    · cases h
  · rintro ⟨stem, suffix, rfl, hlast, hstem, hsuffix, rfl⟩
    have hne : ¬(stem.toList = [] ∨ suffix.toList = []) := by simp [hstem, hsuffix]
    unfold extensionOf?
    rw [splitLast?_dot stem hlast]
    simp only [if_neg hne, String.ofList_toList]

-- The stem is the whole name or what is left when the cut has been made.
theorem stem?_some_iff :
    stem? name (some ext) = some stem ↔
      name.utf8ByteSize ≤ ext.utf8ByteSize ∧ stem = name ∨
        ∃ rest, name = stem ++ rest ∧ rest.utf8ByteSize = ext.utf8ByteSize + 1 := by
  simp only [stem?, Text.byteCount_toList]
  split
  · next hshort =>
      constructor
      · intro h
        exact .inl ⟨by omega, (Option.some.inj h).symm⟩
      · rintro (⟨-, rfl⟩ | ⟨rest, rfl, hrest⟩)
        · rfl
        · rw [String.utf8ByteSize_append] at hshort
          omega
  · next hlong =>
      rw [Option.map_eq_some_iff]
      constructor
      · rintro ⟨before, htake, rfl⟩
        obtain ⟨after, hname, hsize⟩ := Text.takeBytes_eq_some_iff.mp htake
        have happend : name = String.ofList before ++ String.ofList after := by
          rw [← String.ofList_append, ← hname, String.ofList_toList]
        rw [Text.byteCount_eq] at hsize
        have htotal := congrArg String.utf8ByteSize happend
        rw [String.utf8ByteSize_append] at htotal
        exact .inr ⟨String.ofList after, happend, by omega⟩
      · rintro (⟨hshort, -⟩ | ⟨rest, rfl, hrest⟩)
        · omega
        · refine ⟨stem.toList, Text.takeBytes_eq_some_iff.mpr ⟨rest.toList, ?_, ?_⟩, ?_⟩
          · rw [String.toList_append]
          · rw [Text.byteCount_toList, String.utf8ByteSize_append]
            omega
          · rw [String.ofList_toList]

-- The cut falls on the dot exactly when what follows it keeps its size in lower case.
theorem stem?_dot_iff :
    stem? (stem ++ "." ++ suffix) (some ext) = some stem ↔
      ext.utf8ByteSize = suffix.utf8ByteSize := by
  have hdot : (".".utf8ByteSize) = 1 := by decide
  rw [stem?_some_iff, String.append_assoc]
  constructor
  · rintro (⟨-, hwhole⟩ | ⟨rest, hrest, hsize⟩)
    · have hlong := congrArg String.utf8ByteSize hwhole
      rw [String.utf8ByteSize_append, String.utf8ByteSize_append] at hlong
      omega
    · obtain rfl : "." ++ suffix = rest := String.append_right_inj _ |>.mp hrest
      rw [String.utf8ByteSize_append] at hsize
      omega
  · intro hsame
    refine .inr ⟨"." ++ suffix, rfl, ?_⟩
    rw [String.utf8ByteSize_append]
    omega

-- Whatever is `exe` or `lnk` in lower case can be cut off. It is in ASCII, or it ends in a Kelvin
-- sign, and then the cut falls behind its first letter instead of before the dot.
theorem exists_cut_of_executable (hext : extensionOf? name = some ext)
    (hexe : ext = "exe" ∨ ext = "lnk") :
    ∃ stem rest, name = stem ++ rest ∧ rest.utf8ByteSize = ext.utf8ByteSize + 1 := by
  obtain ⟨stem, suffix, rfl, -, -, -, hlower⟩ := extensionOf?_eq_some_iff.mp hext
  obtain ⟨a, b, c, hthree, ha, hb⟩ : ∃ a b c, ext.toList = [a, b, c] ∧ a ≠ 'k' ∧ b ≠ 'k' := by
    rcases hexe with rfl | rfl
    · exact ⟨'e', 'x', 'e', rfl, by decide, by decide⟩
    · exact ⟨'l', 'n', 'k', rfl, by decide, by decide⟩
  have hascii : ∀ d ∈ Text.lowerFrom [] suffix.toList, Text.isAscii d = true := by
    rw [← Text.toList_lowercase, hlower]
    rcases hexe with rfl | rfl <;> exact List.all_eq_true.mp (by decide +kernel)
  have hletters := Text.forall₂_lowersTo hascii
  rw [← Text.toList_lowercase, hlower, hthree] at hletters
  have hsize : ext.utf8ByteSize = 3 := by
    rcases hexe with rfl | rfl <;> rfl
  have hdot : (".".utf8ByteSize) = 1 := rfl
  rcases Text.isAscii_or_kelvin hletters ha hb with ⟨hall, hlength⟩ | ⟨x, y, hsuffix, hy⟩
  · have hbytes := Text.byteCount_of_isAscii hall
    rw [Text.byteCount_toList, hlength] at hbytes
    refine ⟨stem, "." ++ suffix, String.append_assoc, ?_⟩
    rw [String.utf8ByteSize_append, hbytes, hsize, hdot]
  · have hbytes : Text.byteCount [y] = 1 := Text.byteCount_of_isAscii (by simpa using hy)
    have hcut : suffix = String.ofList [x] ++ String.ofList [y, Text.kelvin] := by
      rw [← String.ofList_append, List.singleton_append, ← hsuffix, String.ofList_toList]
    refine ⟨stem ++ "." ++ String.ofList [x], String.ofList [y, Text.kelvin], ?_, ?_⟩
    · rw [hcut, ← String.append_assoc]
    · rw [← Text.byteCount_eq, ← List.singleton_append, Text.byteCount_append, hbytes, hsize]
      rfl

end Drive

namespace Item

theorem isExecutable_iff {x : Item} :
    x.isExecutable = true ↔ x.entry.extension = some "exe" ∨ x.entry.extension = some "lnk" := by
  simp [isExecutable]

-- The stem of an item is its name without the extension, or all of its name if there is none.
def StemFits (x : Item) : Prop :=
  match Drive.extensionOf? x.name with
  | none => x.stem? = some x.name
  | some ext => ∃ stem suffix, x.stem? = some stem ∧ x.name = stem ++ "." ++ suffix ∧
      '.' ∉ suffix.toList ∧ Text.lowercase suffix = ext

variable {x : Item} {name : String}

theorem stemFits_of_extension_eq (hext : x.entry.extension = Drive.extensionOf? x.name) :
    x.StemFits ↔ ∀ stem suffix, x.name = stem ++ "." ++ suffix → '.' ∉ suffix.toList → stem ≠ "" →
      (Text.lowercase suffix).utf8ByteSize = suffix.utf8ByteSize := by
  unfold StemFits stem?
  rw [hext]
  constructor
  · intro hfits stem suffix hname hlast hstem
    by_cases hsuffix : suffix = ""
    · rw [hsuffix]
      rfl
    · have hsome := Drive.extensionOf?_eq_some_iff.mpr
        ⟨stem, suffix, hname, hlast, hstem, hsuffix, rfl⟩
      rw [hsome] at hfits
      obtain ⟨stem', suffix', hcut, hname', hlast', -⟩ := hfits
      obtain ⟨rfl, rfl⟩ := Drive.dot_inj hlast hlast' (hname.symm.trans hname')
      rw [hname] at hcut
      exact Drive.stem?_dot_iff.mp hcut
  · intro hsizes
    cases hsome : Drive.extensionOf? x.name with
    | none => rfl
    | some ext =>
        obtain ⟨stem, suffix, hname, hlast, hstem, -, rfl⟩ := Drive.extensionOf?_eq_some_iff.mp hsome
        refine ⟨stem, suffix, ?_, hname, hlast, rfl⟩
        rw [hname]
        exact Drive.stem?_dot_iff.mpr (hsizes stem suffix hname hlast hstem)

-- Lower-casing can make the part behind the last dot longer or shorter. Then the stem of a file is
-- not the name without the extension: the cut falls too far left or right, or inside a character,
-- where there is no stem at all. In ASCII nothing of the kind happens.
theorem stemFits_iff {stamp : Stamp} {path content : String} {payload : Bytes}
    (made : x = .textFile stamp name path content ∨ x = .binaryFile stamp name path payload) :
    (x.StemFits ↔ ∀ stem suffix, name = stem ++ "." ++ suffix → '.' ∉ suffix.toList → stem ≠ "" →
      (Text.lowercase suffix).utf8ByteSize = suffix.utf8ByteSize) ∧
    (∀ stem suffix, name = stem ++ "." ++ suffix → '.' ∉ suffix.toList →
      (∀ c ∈ suffix.toList, Text.isAscii c = true) → x.StemFits) ∧
    ∀ stem, x.stem? = some stem ↔
      Drive.extensionOf? name = none ∧ stem = name ∨
      ∃ ext, Drive.extensionOf? name = some ext ∧
        (name.utf8ByteSize ≤ ext.utf8ByteSize ∧ stem = name ∨
          ∃ rest, name = stem ++ rest ∧ rest.utf8ByteSize = ext.utf8ByteSize + 1) := by
  obtain ⟨hname, hext⟩ : x.name = name ∧ x.entry.extension = Drive.extensionOf? name := by
    rcases made with rfl | rfl <;> exact ⟨rfl, rfl⟩
  subst hname
  refine ⟨stemFits_of_extension_eq hext, fun stem suffix hdot hlast hascii => ?_, fun stem => ?_⟩
  · refine (stemFits_of_extension_eq hext).mpr fun stem' suffix' hdot' hlast' _ => ?_
    obtain ⟨-, rfl⟩ := Drive.dot_inj hlast hlast' (hdot.symm.trans hdot')
    rw [← Text.byteCount_toList, Text.toList_lowercase, Text.byteCount_lowerFrom_of_isAscii hascii,
      Text.byteCount_toList]
  · rw [stem?, hext]
    cases Drive.extensionOf? x.name with
    | none => simp [Drive.stem?, eq_comm]
    | some ext => simp [Drive.stem?_some_iff]

theorem stemFits_iff_mixedCase :
    let x := Item.textFile ⟨1, .epoch⟩ "Straße.TXT" "/Straße.TXT" ""
    (x = .textFile ⟨1, .epoch⟩ "Straße.TXT" "/Straße.TXT" "" ∨
        x = .binaryFile ⟨1, .epoch⟩ "Straße.TXT" "/Straße.TXT" []) ∧
      x.StemFits ∧ x.stem? = some "Straße" := by
  intro x
  have made : x = .textFile ⟨1, .epoch⟩ "Straße.TXT" "/Straße.TXT" "" ∨
      x = .binaryFile ⟨1, .epoch⟩ "Straße.TXT" "/Straße.TXT" [] := .inl rfl
  obtain ⟨-, hfits, hstem⟩ := stemFits_iff made
  have hext : Drive.extensionOf? "Straße.TXT" = some "txt" := by decide +kernel
  exact ⟨made, hfits "Straße" "TXT" rfl (by decide) (List.all_eq_true.mp (by decide)),
    (hstem _).mpr (.inr ⟨"txt", hext, .inr ⟨".TXT", rfl, rfl⟩⟩)⟩

-- A letter whose lower case is longer, so that the cut falls inside the letter before the dot, and
-- one whose lower case is shorter, so that the cut falls behind the dot.
theorem not_stemFits_resized :
    let x := Item.textFile ⟨1, .epoch⟩ "é.Ⱥ" "/é.Ⱥ" ""
    let y := Item.textFile ⟨1, .epoch⟩ "link.ln\u212A" "/link.ln\u212A" ""
    (¬x.StemFits ∧ x.stem? = none) ∧ ¬y.StemFits ∧ y.stem? = some "link.l" := by
  intro x y
  have hx : x.stem? = none := by decide +kernel
  have hy : y.stem? = some "link.l" := by decide +kernel
  have hextx : Drive.extensionOf? x.name = some "ⱥ" := by decide +kernel
  have hexty : Drive.extensionOf? y.name = some "lnk" := by decide +kernel
  refine ⟨⟨?_, hx⟩, ?_, hy⟩
  · unfold StemFits
    rw [hextx, hx]
    rintro ⟨stem, suffix, hcut, -⟩
    cases hcut
  · unfold StemFits
    rw [hexty, hy]
    rintro ⟨stem, suffix, hcut, hname, -⟩
    obtain rfl : "link.l" = stem := Option.some.inj hcut
    have hletters : y.name.toList = ("link.l" ++ ".").toList ++ suffix.toList := by
      rw [hname, String.toList_append]
    have hletter := congrArg (·[6]?) hletters
    rw [List.getElem?_append_left (by decide)] at hletter
    exact absurd hletter (by decide +kernel)

end Item

end DesktopShell

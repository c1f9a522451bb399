import DesktopShell.Text.Bytes
import DesktopShell.Text.Lowercase
import Mathlib.Data.List.Forall2

namespace DesktopShell.Text

def isAscii (c : Char) : Bool :=
  c.toNat < 0x80

-- A letter beyond ASCII whose lower case is the ASCII letter k.
def kelvin : Char := '\u212A'

-- Where a run of letters starts decides how low its letters can get.
theorem shift_caseRuns : ∀ r ∈ caseRuns,
    0x80 ≤ r.first + r.shift ∨ r.first = kelvin.toNat ∧ r.last = kelvin.toNat := by
  decide +kernel

theorem lowerCode_lt {n : Nat} (hn : 0x80 ≤ n) (h : lowerCode n < 0x80) : n = kelvin.toNat := by
  unfold lowerCode at h
  split at h
  · next r hr =>
      have hcovers := List.find?_some hr
      simp only [CaseRun.covers, Bool.and_eq_true, decide_eq_true_eq] at hcovers
      rcases shift_caseRuns r (List.mem_of_find?_eq_some hr) with hhigh | ⟨hfirst, hlast⟩
      · omega
      · omega
  · omega

-- All letters that a run leads to are characters.
theorem valid_caseRuns : ∀ r ∈ caseRuns,
    r.last + r.shift < 0xD800 ∨ 0xE000 ≤ r.first + r.shift ∧ r.last + r.shift < 0x110000 := by
  decide +kernel

theorem isValidChar_lowerCode (c : Char) : (lowerCode c.toNat).isValidChar := by
  unfold lowerCode
  split
  · next r hr =>
      have hcovers := List.find?_some hr
      simp only [CaseRun.covers, Bool.and_eq_true, decide_eq_true_eq] at hcovers
      have hvalid := valid_caseRuns r (List.mem_of_find?_eq_some hr)
      unfold Nat.isValidChar
      omega
  · exact c.valid

theorem toNat_ofNat_lowerCode (c : Char) :
    (Char.ofNat (lowerCode c.toNat)).toNat = lowerCode c.toNat := by
  rw [Char.ofNat, dif_pos (isValidChar_lowerCode c)]
  rfl

-- `LowersTo c d`: `d` is the lower case of `c` and an ASCII character.
def LowersTo (c d : Char) : Prop :=
  isAscii c = true ∧ c.toLower = d ∨ c = kelvin ∧ d = 'k'

theorem lowersTo_of_lowerChar {c : Char} (h : ∀ d ∈ lowerChar c, isAscii d = true) :
    ∃ d, lowerChar c = [d] ∧ LowersTo c d := by
  unfold lowerChar at h ⊢
  split at h
  · next hc => exact ⟨c.toLower, by rw [if_pos hc], .inl ⟨decide_eq_true hc, rfl⟩⟩
  · next hc =>
      split at h
      · exact absurd (h '\u0307' (by simp)) (by decide)
      · next hdotted =>
          have hlow : lowerCode c.toNat < 0x80 := by
            rw [← toNat_ofNat_lowerCode]
            exact of_decide_eq_true (h _ List.mem_cons_self)
          have hkelvin : c = kelvin := Char.toNat_inj.mp (lowerCode_lt (by omega) hlow)
          subst hkelvin
          exact ⟨'k', by decide +kernel, .inr ⟨rfl, rfl⟩⟩

-- A text whose lower case is in ASCII has as many characters as that.
theorem forall₂_lowersTo {before cs : List Char}
    (h : ∀ d ∈ lowerFrom before cs, isAscii d = true) :
    List.Forall₂ LowersTo cs (lowerFrom before cs) := by
  induction cs generalizing before with
  | nil => exact .nil
  | cons c cs ih =>
      rw [lowerFrom] at h ⊢
      split at h
      · next hsigma =>
          have hfinal : isAscii 'ς' = false ∧ isAscii 'σ' = false := by decide
          split at h <;> simp [hfinal] at h
      · next hsigma =>
          obtain ⟨hhead, hrest⟩ := List.forall_mem_append.mp h
          obtain ⟨d, hd, hlower⟩ := lowersTo_of_lowerChar hhead
          rw [if_neg hsigma, hd]
          exact .cons hlower (ih hrest)

-- Of three letters whose lower case is in ASCII and a k at the end at most, only the last can be a
-- Kelvin sign.
theorem isAscii_or_kelvin {cs : List Char} {a b c : Char} (h : List.Forall₂ LowersTo cs [a, b, c])
    (ha : a ≠ 'k') (hb : b ≠ 'k') :
    ((∀ d ∈ cs, isAscii d = true) ∧ cs.length = 3) ∨
      ∃ x y, cs = [x, y, kelvin] ∧ isAscii y = true := by
  cases h with
  | @cons x _ cs _ hx h =>
  cases h with
  | @cons y _ cs _ hy h =>
  cases h with
  | @cons z _ cs _ hz h =>
  cases h
  have hx : isAscii x = true := (hx.resolve_right fun h => ha h.2).1
  have hy : isAscii y = true := (hy.resolve_right fun h => hb h.2).1
  rcases hz with ⟨hz, -⟩ | ⟨rfl, -⟩
  · exact .inl ⟨by simp [hx, hy, hz], rfl⟩
  · exact .inr ⟨x, y, rfl, hy⟩

theorem toList_lowercase (s : String) : (lowercase s).toList = lowerFrom [] s.toList :=
  String.toList_ofList

theorem byteCount_of_isAscii {cs : List Char} (h : ∀ c ∈ cs, isAscii c = true) :
    byteCount cs = cs.length := by
  induction cs with
  | nil => rfl
  | cons c cs ih =>
      obtain ⟨hc, hcs⟩ := List.forall_mem_cons.mp h
      have hsize : c.utf8Size = 1 := by
        have hlow : c.toNat < 0x80 := of_decide_eq_true hc
        refine Char.utf8Size_eq_one_iff.mpr (UInt32.le_iff_toNat_le.mpr ?_)
        show c.toNat ≤ 127
        omega
      rw [byteCount, ih hcs, hsize, List.length_cons, Nat.add_comm]

-- Where each character has one letter for its lower case, lower-casing is done letter by letter.
theorem lowerFrom_eq_map {before cs : List Char} {f : Char → Char}
    (h : ∀ c ∈ cs, c ≠ 'Σ' ∧ lowerChar c = [f c]) : lowerFrom before cs = cs.map f := by
  induction cs generalizing before with
  | nil => rfl
  | cons c cs ih =>
      obtain ⟨⟨hsigma, hlower⟩, hcs⟩ := List.forall_mem_cons.mp h
      rw [lowerFrom, if_neg hsigma, hlower, ih hcs]
      rfl

theorem ne_sigma_of_isAscii {c : Char} (h : isAscii c = true) : c ≠ 'Σ' := by
  rintro rfl
  exact absurd h (by decide)

theorem lowerChar_of_isAscii {c : Char} (h : isAscii c = true) : lowerChar c = [c.toLower] :=
  if_pos (of_decide_eq_true h)

theorem lowerFrom_of_isAscii {before cs : List Char} (h : ∀ c ∈ cs, isAscii c = true) :
    lowerFrom before cs = cs.map Char.toLower :=
  lowerFrom_eq_map fun c hc => ⟨ne_sigma_of_isAscii (h c hc), lowerChar_of_isAscii (h c hc)⟩

theorem isAscii_toLower {c : Char} (h : isAscii c = true) : isAscii c.toLower = true := by
  have hall : ∀ n < 0x80, isAscii (Char.ofNat n).toLower = true := by decide
  rw [← Char.ofNat_toNat c]
  exact hall c.toNat (of_decide_eq_true h)

theorem byteCount_lowerFrom_of_isAscii {before cs : List Char} (h : ∀ c ∈ cs, isAscii c = true) :
    byteCount (lowerFrom before cs) = byteCount cs := by
  have hlower : ∀ d ∈ cs.map Char.toLower, isAscii d = true := by
    intro d hd
    obtain ⟨c, hc, rfl⟩ := List.mem_map.mp hd
    exact isAscii_toLower (h c hc)
  rw [lowerFrom_of_isAscii h, byteCount_of_isAscii hlower, byteCount_of_isAscii h, List.length_map]

end DesktopShell.Text

import DesktopShell.Text.Digits
import DesktopShell.Text.Pad

namespace DesktopShell.Text

theorem digit?_of_isDigit {c : Char} (h : c.isDigit = true) :
    digit? 10 c = some (c.toNat - '0'.toNat) := by
  have hc := Char.isDigit_iff_toNat.mp h
  have hlt : c.toNat - '0'.toNat < 10 := by
    simp only [Char.reduceToNat] at hc ⊢
    omega
  unfold digit?
  rw [if_pos h, Option.filter_some, if_pos (decide_eq_true hlt)]

theorem mapM_digit? {cs : List Char} (h : ∀ c ∈ cs, c.isDigit = true) :
    cs.mapM (digit? 10) = some (cs.map fun c => c.toNat - '0'.toNat) := by
  induction cs with
  | nil => rfl
  | cons c cs ih =>
      have hc := digit?_of_isDigit (h c List.mem_cons_self)
      have hcs := ih fun d hd => h d (List.mem_cons_of_mem c hd)
      rw [List.mapM_cons, hc, hcs]
      rfl

theorem number?_of_isDigit {cs : List Char} (hne : cs ≠ []) (h : ∀ c ∈ cs, c.isDigit = true) :
    number? 10 cs = some (Nat.ofDigitChars 10 cs 0) := by
  rw [number?, if_neg hne, mapM_digit? h, Option.map_some, numberOf, List.foldl_map]
  rfl

theorem isDigit_of_mem_repr (n : Nat) : ∀ c ∈ (Nat.repr n).toList, c.isDigit = true := by
  intro c h
  rw [Nat.toList_repr] at h
  exact Nat.isDigit_of_mem_toDigits (by decide) (by decide) h

theorem toList_repr_ne_nil (n : Nat) : (Nat.repr n).toList ≠ [] := by
  rw [Nat.toList_repr]
  exact Nat.toDigits_ne_nil

theorem number?_repr (n : Nat) : number? 10 (Nat.repr n).toList = some n := by
  rw [number?_of_isDigit (toList_repr_ne_nil n) (isDigit_of_mem_repr n), Nat.toList_repr,
    Nat.ofDigitChars_ten_toDigits]

section ZeroPad

variable (width n : Nat)

theorem toList_zeroPad : (zeroPad width n).toList =
    List.replicate (width - (Nat.repr n).length) '0' ++ (Nat.repr n).toList := by
  simp [zeroPad]

theorem isDigit_of_mem_zeroPad : ∀ c ∈ (zeroPad width n).toList, c.isDigit = true := by
  intro c h
  rw [toList_zeroPad, List.mem_append] at h
  rcases h with h | h
  · rw [List.eq_of_mem_replicate h]
    rfl
  · exact isDigit_of_mem_repr n c h

theorem toList_zeroPad_ne_nil : (zeroPad width n).toList ≠ [] := by
  rw [toList_zeroPad]
  exact List.append_ne_nil_of_right_ne_nil _ (toList_repr_ne_nil n)

theorem number?_zeroPad : number? 10 (zeroPad width n).toList = some n := by
  rw [number?_of_isDigit (toList_zeroPad_ne_nil width n) (isDigit_of_mem_zeroPad width n),
    toList_zeroPad, Nat.ofDigitChars_append, Nat.ofDigitChars_replicate_zero, Nat.mul_zero,
    Nat.toList_repr, Nat.ofDigitChars_ten_toDigits]

-- A number that needs no more digits than there is room for fills the room.
theorem length_zeroPad {width n : Nat} (h : (Nat.repr n).length ≤ width) :
    (zeroPad width n).toList.length = width := by
  rw [toList_zeroPad, List.length_append, List.length_replicate, String.length_toList]
  omega

end ZeroPad

end DesktopShell.Text

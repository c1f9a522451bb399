import DesktopShell.Proofs.Text.Digits
import DesktopShell.Time.Rfc3339

namespace DesktopShell.Rfc3339

theorem isBlank_of_isDigit {c : Char} (h : c.isDigit = true) : Text.isBlank c = false := by
  have hc := Char.isDigit_iff_toNat.mp h
  simp only [Char.reduceToNat] at hc
  simp only [Text.isBlank, Bool.or_eq_false_iff, Bool.and_eq_false_iff, decide_eq_false_iff_not,
    beq_eq_false_iff_ne, ne_eq]
  omega

theorem skipBlanks_cons {c : Char} (h : Text.isBlank c = false) (cs : List Char) :
    skipBlanks (c :: cs) = c :: cs := by
  rw [skipBlanks, List.dropWhile_cons_of_neg (by simp [h])]

theorem skipBlanks_digits {ds : List Char} (hne : ds ≠ []) (h : ∀ c ∈ ds, c.isDigit = true)
    (rest : List Char) : skipBlanks (ds ++ rest) = ds ++ rest := by
  cases ds with
  | nil => exact absurd rfl hne
  | cons c ds => exact skipBlanks_cons (isBlank_of_isDigit (h c List.mem_cons_self)) _

-- Digits are read as far as the width allows, or up to what is no digit.
theorem number?_digits {width : Nat} {ds rest : List Char} (h : ∀ c ∈ ds, c.isDigit = true)
    (hlen : ds.length ≤ width)
    (hstop : ds.length = width ∨ ∀ c ∈ rest.head?, c.isDigit = false) :
    number? width (ds ++ rest) = (Text.number? 10 ds).map (·, rest) := by
  have htail : (rest.take (width - ds.length)).takeWhile Char.isDigit = [] := by
    rcases hstop with hwidth | hhead
    · rw [hwidth, Nat.sub_self, List.take_zero, List.takeWhile_nil]
    · cases rest with
      | nil => rw [List.take_nil, List.takeWhile_nil]
      | cons c rest =>
          have hc := hhead c rfl
          cases width - ds.length with
          | zero => rw [List.take_zero, List.takeWhile_nil]
          | succ n => rw [List.take_succ_cons, List.takeWhile_cons_of_neg (by simp [hc])]
  have hdigits : ((ds ++ rest).take width).takeWhile Char.isDigit = ds := by
    rw [List.take_append, List.take_of_length_le hlen, List.takeWhile_append_of_pos h, htail,
      List.append_nil]
  rw [number?, hdigits, List.drop_left]

theorem number?_zeroPad {width n : Nat} (h : (Nat.repr n).length ≤ width) (rest : List Char) :
    number? width ((Text.zeroPad width n).toList ++ rest) = some (n, rest) := by
  have hlen := Text.length_zeroPad h
  rw [number?_digits (Text.isDigit_of_mem_zeroPad width n) (by omega) (.inl hlen),
    Text.number?_zeroPad, Option.map_some]

theorem field?_zeroPad {n : Nat} (h : n < 100) (rest : List Char) :
    field? 2 ((Text.zeroPad 2 n).toList ++ rest) = some (n, rest) := by
  have hlen : (Nat.repr n).length ≤ 2 := (Nat.length_repr_le_iff (by decide)).mpr (by omega)
  rw [field?, skipBlanks_digits (Text.toList_zeroPad_ne_nil 2 n)
    (Text.isDigit_of_mem_zeroPad 2 n), number?_zeroPad hlen]

theorem literal?_cons {c : Char} (h : Text.isBlank c = false) (rest : List Char) :
    literal? c (c :: rest) = some rest := by
  rw [literal?, skipBlanks_cons h]
  exact if_pos rfl

-- A signed number may be longer than its padding, and ends before what is no digit.
theorem number?_signed (n : Nat) {rest : List Char} (hrest : ∀ c ∈ rest.head?, c.isDigit = false) :
    number? ((Text.zeroPad 4 n).toList ++ rest).length ((Text.zeroPad 4 n).toList ++ rest) =
      some (n, rest) := by
  rw [number?_digits (Text.isDigit_of_mem_zeroPad 4 n) (by simp) (.inr hrest),
    Text.number?_zeroPad, Option.map_some]

theorem year?_unsigned {c : Char} (h : c.isDigit = true) (cs : List Char) :
    year? (c :: cs) = (number? 4 (c :: cs)).map fun (n, more) => ((n : Int), more) := by
  unfold year?
  rw [skipBlanks_cons (isBlank_of_isDigit h)]
  split
  · next he => exact absurd ((List.cons.inj he).1 ▸ h) (by decide)
  · next he => exact absurd ((List.cons.inj he).1 ▸ h) (by decide)
  · rfl

theorem year?_minus (cs : List Char) :
    year? ('-' :: cs) = (number? cs.length cs).map fun (n, more) => (-(n : Int), more) := by
  rw [year?, skipBlanks_cons (by decide)]
  rfl

theorem year?_plus (cs : List Char) :
    year? ('+' :: cs) = (number? cs.length cs).map fun (n, more) => ((n : Int), more) := by
  rw [year?, skipBlanks_cons (by decide)]
  rfl

theorem year?_yearText (year : Int) (rest : List Char) :
    year? ((yearText year).toList ++ '-' :: rest) = some (year, '-' :: rest) := by
  have hrest : ∀ c ∈ ('-' :: rest).head?, c.isDigit = false := by
    intro c hc
    obtain rfl : '-' = c := Option.some.inj hc
    rfl
  have hsigned := number?_signed year.natAbs hrest
  unfold yearText
  split
  · next hyear =>
      have hlen : (Nat.repr year.toNat).length ≤ 4 :=
        (Nat.length_repr_le_iff (by decide)).mpr (by omega)
      have hread := number?_zeroPad hlen ('-' :: rest)
      have hdigit := Text.isDigit_of_mem_zeroPad 4 year.toNat
      obtain ⟨c, cs, hcs⟩ := List.exists_cons_of_ne_nil (Text.toList_zeroPad_ne_nil 4 year.toNat)
      rw [hcs] at hread hdigit ⊢
      have hyear' : (year.toNat : Int) = year := Int.toNat_of_nonneg hyear.1
      rw [List.cons_append] at hread ⊢
      rw [year?_unsigned (hdigit c List.mem_cons_self), hread]
      simp only [Option.map_some, hyear']
  · split
    · have hyear' : -(year.natAbs : Int) = year := by omega
      have hminus : "-".toList = ['-'] := rfl
      rw [String.toList_append, hminus, List.cons_append, List.cons_append, List.nil_append,
        year?_minus, hsigned]
      simp only [Option.map_some, hyear']
    · have hyear' : (year.natAbs : Int) = year := by omega
      have hplus : "+".toList = ['+'] := rfl
      rw [String.toList_append, hplus, List.cons_append, List.cons_append, List.nil_append,
        year?_plus, hsigned]
      simp only [Option.map_some, hyear']

theorem fraction?_digits {width n : Nat} (hwidth : width ≤ 9) (hlen : (Nat.repr n).length ≤ width)
    (rest : List Char) :
    fraction? (("." ++ Text.zeroPad width n).toList ++ 'Z' :: rest) =
      some (n * Nat.pow 10 (9 - width), 'Z' :: rest) := by
  have hpoint : ".".toList = ['.'] := rfl
  have hdigits := Text.isDigit_of_mem_zeroPad width n
  have hfill := Text.length_zeroPad hlen
  have hread : number? 9 ((Text.zeroPad width n).toList ++ 'Z' :: rest) = some (n, 'Z' :: rest) := by
    rw [number?_digits hdigits (by omega) (.inr (by simp)), Text.number?_zeroPad, Option.map_some]
  have hused : ((Text.zeroPad width n).toList ++ 'Z' :: rest).length - ('Z' :: rest).length = width := by
    rw [List.length_append, hfill]
    omega
  have hend : ('Z' :: rest).dropWhile Char.isDigit = 'Z' :: rest :=
    List.dropWhile_cons_of_neg (by decide)
  rw [String.toList_append, hpoint, List.cons_append, List.cons_append, List.nil_append, fraction?]
  simp only [hread, hused, hend, Option.bind_eq_bind, Option.bind_some, Option.pure_def]

theorem fraction?_fractionText {nano : Nat} (h : nano < 1000000000) (rest : List Char) :
    fraction? ((fractionText nano).toList ++ 'Z' :: rest) = some (nano, 'Z' :: rest) := by
  unfold fractionText
  split
  · next hzero =>
      rw [hzero]
      rfl
  · split
    · next hmilli =>
        have hlen : (Nat.repr (nano / 1000000)).length ≤ 3 :=
          (Nat.length_repr_le_iff (by decide)).mpr (by omega)
        have hnano : nano / 1000000 * Nat.pow 10 (9 - 3) = nano := by
          show nano / 1000000 * 1000000 = nano
          omega
        rw [fraction?_digits (by decide) hlen, hnano]
    · split
      · next hmicro =>
          have hlen : (Nat.repr (nano / 1000)).length ≤ 6 :=
            (Nat.length_repr_le_iff (by decide)).mpr (by omega)
          have hnano : nano / 1000 * Nat.pow 10 (9 - 6) = nano := by
            show nano / 1000 * 1000 = nano
            omega
          rw [fraction?_digits (by decide) hlen, hnano]
      · have hlen : (Nat.repr nano).length ≤ 9 :=
          (Nat.length_repr_le_iff (by decide)).mpr (by omega)
        have hnano : nano * Nat.pow 10 (9 - 9) = nano := Nat.mul_one nano
        rw [fraction?_digits (by decide) hlen, hnano]

theorem offset?_universal : offset? ['Z'] = some (0, []) := by
  rfl

-- The second and the nanosecond that are written, and what reading makes of them.
theorem second_written {r : Reading} (h : r.Valid) {second nano : Nat}
    (hw : (if r.nano < 1000000000 then (r.second, r.nano) else (r.second + 1, r.nano - 1000000000)) =
      (second, nano)) :
    second < 100 ∧ nano < 1000000000 ∧
      (if second = 60 then (59, nano + 1000000000) else (second, nano)) = (r.second, r.nano) := by
  obtain ⟨-, -, -, -, -, -, -, -, hsecond, hnano⟩ := h
  by_cases hleap : r.nano < 1000000000
  · rw [if_pos hleap] at hw
    obtain ⟨rfl, rfl⟩ := Prod.mk.inj hw
    rw [if_neg (by omega)]
    exact ⟨by omega, hleap, rfl⟩
  · rw [if_neg hleap] at hw
    obtain ⟨rfl, rfl⟩ := Prod.mk.inj hw
    have hlast : r.second = 59 := by omega
    rw [if_pos (by omega), hlast, Nat.sub_add_cancel (by omega)]
    exact ⟨by omega, by omega, rfl⟩

theorem addMinutes_zero {r : Reading} (h : r.Valid) : r.addMinutes (-0) = r := by
  obtain ⟨-, -, -, -, -, -, hhour, hminute, -, -⟩ := h
  have hlow : ¬((r.hour * 60 + r.minute : Int) + -0 < 0) := by omega
  have hhigh : (r.hour * 60 + r.minute : Int) + -0 < 1440 := by omega
  have hofDay : (((r.hour * 60 + r.minute : Int) + -0) % 1440).toNat = r.hour * 60 + r.minute := by omega
  have hh : (r.hour * 60 + r.minute) / 60 = r.hour := by omega
  have hm : (r.hour * 60 + r.minute) % 60 = r.minute := by omega
  simp only [Reading.addMinutes, if_neg hlow, if_pos hhigh, hofDay, hh, hm]

theorem ofReading?_val (m : Moment) : Moment.ofReading? m.val = some m :=
  dif_pos m.property

theorem daysIn_le (year : Int) (month : Nat) : Reading.daysIn year month ≤ 31 := by
  unfold Reading.daysIn
  split <;> try split
  all_goals decide

-- Every moment is read as it was written, whatever its year, leap seconds included.
theorem parse?_render (m : Moment) : parse? (render m) = some m := by
  obtain ⟨-, -, -, hmonth, -, hday, hhour, hminute, -, -⟩ := m.property
  have hdays := daysIn_le m.val.year m.val.month
  obtain ⟨second, nano, hw⟩ : ∃ second nano,
      (if m.val.nano < 1000000000 then (m.val.second, m.val.nano)
        else (m.val.second + 1, m.val.nano - 1000000000)) = (second, nano) := ⟨_, _, rfl⟩
  obtain ⟨hsecond, hnano, hback⟩ := second_written m.property hw
  have hdash (cs : List Char) : "-".toList ++ cs = '-' :: cs := rfl
  have hcolon (cs : List Char) : ":".toList ++ cs = ':' :: cs := rfl
  have hT (cs : List Char) : "T".toList ++ cs = 'T' :: cs := rfl
  have hZ : "Z".toList = ['Z'] := rfl
  simp only [render, hw, parse?, String.toList_append, List.append_assoc, List.cons_append, hdash,
    hcolon, hT, hZ]
  -- Each reader takes what was written for it and leaves the rest.
  refine Option.bind_eq_some_iff.mpr ⟨_, year?_yearText m.val.year _, ?_⟩
  refine Option.bind_eq_some_iff.mpr ⟨_, literal?_cons rfl _, ?_⟩
  refine Option.bind_eq_some_iff.mpr ⟨_, field?_zeroPad (by omega) _, ?_⟩
  refine Option.bind_eq_some_iff.mpr ⟨_, literal?_cons rfl _, ?_⟩
  refine Option.bind_eq_some_iff.mpr ⟨_, field?_zeroPad (by omega) _, ?_⟩
  refine Option.bind_eq_some_iff.mpr ⟨_, rfl, ?_⟩
  refine Option.bind_eq_some_iff.mpr ⟨_, field?_zeroPad (by omega) _, ?_⟩
  refine Option.bind_eq_some_iff.mpr ⟨_, literal?_cons rfl _, ?_⟩
  refine Option.bind_eq_some_iff.mpr ⟨_, field?_zeroPad (by omega) _, ?_⟩
  refine Option.bind_eq_some_iff.mpr ⟨_, literal?_cons rfl _, ?_⟩
  refine Option.bind_eq_some_iff.mpr ⟨_, field?_zeroPad hsecond _, ?_⟩
  refine Option.bind_eq_some_iff.mpr ⟨_, fraction?_fractionText hnano [], ?_⟩
  refine Option.bind_eq_some_iff.mpr ⟨_, offset?_universal, ?_⟩
  rw [if_neg (by decide), hback]
  refine Option.bind_eq_some_iff.mpr ⟨m, ofReading?_val m, ?_⟩
  rw [addMinutes_zero m.property, ofReading?_val]

end DesktopShell.Rfc3339

namespace DesktopShell.Text

-- The characters with the Unicode property White_Space.
def isBlank (c : Char) : Bool :=
  let n := c.toNat
  (9 ≤ n && n ≤ 13) || n == 0x20 || n == 0x85 || n == 0xA0 || n == 0x1680 ||
    (0x2000 ≤ n && n ≤ 0x200A) || n == 0x2028 || n == 0x2029 || n == 0x202F || n == 0x205F ||
    n == 0x3000

-- Drop `p` characters at the end.
def dropEnd (p : Char → Bool) (cs : List Char) : List Char :=
  (cs.reverse.dropWhile p).reverse

-- A text without the blanks at both ends.
def trim (s : String) : String :=
  String.ofList (dropEnd isBlank (s.toList.dropWhile isBlank))

-- A text that holds nothing but blanks, the empty text included.
def allBlank (s : String) : Bool :=
  s.toList.all isBlank

theorem dropEnd_of_getLast?_ne {c : Char} {cs : List Char} (h : cs.getLast? ≠ some c) :
    dropEnd (· = c) cs = cs := by
  rw [dropEnd]
  cases hr : cs.reverse with
  | nil => exact (List.reverse_eq_nil_iff.mp hr).symm
  | cons d ds =>
      have hd : d ≠ c := by
        rintro rfl
        exact h (by rw [← List.head?_reverse, hr, List.head?_cons])
      rw [List.dropWhile_cons_of_neg (by simpa using hd), ← hr, List.reverse_reverse]

end DesktopShell.Text

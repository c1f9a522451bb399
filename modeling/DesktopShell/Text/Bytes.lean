namespace DesktopShell.Text

-- Length in UTF-8 bytes.
def byteCount : List Char → Nat
  | [] => 0
  | c :: cs => c.utf8Size + byteCount cs

-- The characters that make up the first `n` bytes. There are none when the cut at `n` falls
-- inside a character or behind the end.
def takeBytes : Nat → List Char → Option (List Char)
  | 0, _ => some []
  | _ + 1, [] => none
  | n + 1, c :: cs =>
      if c.utf8Size ≤ n + 1 then (takeBytes (n + 1 - c.utf8Size) cs).map (c :: ·) else none

theorem byteCount_append (a b : List Char) : byteCount (a ++ b) = byteCount a + byteCount b := by
  induction a with
  | nil => simp [byteCount]
  | cons c a ih => simp [byteCount, ih, Nat.add_assoc]

-- A cut between two characters gives the characters before it.
theorem takeBytes_append (a b : List Char) : takeBytes (byteCount a) (a ++ b) = some a := by
  induction a with
  | nil => simp [byteCount, takeBytes]
  | cons c a ih =>
      have hc : 0 < c.utf8Size := c.utf8Size_pos
      obtain ⟨n, hn⟩ : ∃ n, c.utf8Size + byteCount a = n + 1 :=
        ⟨c.utf8Size + byteCount a - 1, by omega⟩
      have hr : n + 1 - c.utf8Size = byteCount a := by omega
      have hle : c.utf8Size ≤ n + 1 := by omega
      simp [byteCount, hn, takeBytes, hr, hle, ih]

end DesktopShell.Text

import DesktopShell.Text.Base64

namespace DesktopShell.Text.Base64

-- The six bits of each symbol give back the bytes they were cut from.
theorem firstByte_split (a : UInt8) (n : Nat) (hn : n < 16) :
    firstByte (a.toNat / 4) (a.toNat % 4 * 16 + n) = a := by
  have ha := a.toNat_lt
  rw [firstByte, show a.toNat / 4 * 4 + (a.toNat % 4 * 16 + n) / 16 = a.toNat by omega,
    UInt8.ofNat_toNat]

theorem secondByte_split (b : UInt8) (m n : Nat) (hn : n < 4) :
    secondByte (m * 16 + b.toNat / 16) (b.toNat % 16 * 4 + n) = b := by
  have hb := b.toNat_lt
  rw [secondByte, show (m * 16 + b.toNat / 16) % 16 * 16 + (b.toNat % 16 * 4 + n) / 4 = b.toNat by omega,
    UInt8.ofNat_toNat]

theorem thirdByte_split (c : UInt8) (m : Nat) :
    thirdByte (m * 4 + c.toNat / 64) (c.toNat % 64) = c := by
  have hc := c.toNat_lt
  rw [thirdByte, show (m * 4 + c.toNat / 64) % 4 * 64 + c.toNat % 64 = c.toNat by omega,
    UInt8.ofNat_toNat]

theorem decode?_encode (bytes : List UInt8) : decode? (encode bytes) = some bytes := by
  induction bytes using encode.induct with
  | case1 => rfl
  | case2 a =>
      have ha := a.toNat_lt
      have hw : value? (symbol (a.toNat / 4)) = some (a.toNat / 4) := value?_symbol (by omega)
      have hx : value? (symbol (a.toNat % 4 * 16)) = some (a.toNat % 4 * 16) :=
        value?_symbol (by omega)
      have hbyte := firstByte_split a 0 (by decide)
      simp only [encode]
      rw [decode?]
      simp only [hw, hx, Option.bind_eq_bind, Option.bind_some]
      rw [if_pos (by omega), ← Nat.add_zero (a.toNat % 4 * 16), hbyte]
  | case3 a b =>
      have ha := a.toNat_lt
      have hb := b.toNat_lt
      have hw : value? (symbol (a.toNat / 4)) = some (a.toNat / 4) := value?_symbol (by omega)
      have hx : value? (symbol (a.toNat % 4 * 16 + b.toNat / 16)) =
          some (a.toNat % 4 * 16 + b.toNat / 16) := value?_symbol (by omega)
      have hy : value? (symbol (b.toNat % 16 * 4)) = some (b.toNat % 16 * 4) :=
        value?_symbol (by omega)
      have hsymbol : symbol (b.toNat % 16 * 4) ≠ '=' := symbol_ne_equals (by omega)
      have hfirst := firstByte_split a (b.toNat / 16) (by omega)
      have hsecond := secondByte_split b (a.toNat % 4) 0 (by decide)
      simp only [encode]
      rw [decode?]
      · simp only [hw, hx, hy, Option.bind_eq_bind, Option.bind_some]
        rw [if_pos (by omega), hfirst, ← Nat.add_zero (b.toNat % 16 * 4), hsecond]
      · exact hsymbol
  | case4 a b c rest ih =>
      have ha := a.toNat_lt
      have hb := b.toNat_lt
      have hc := c.toNat_lt
      have hw : value? (symbol (a.toNat / 4)) = some (a.toNat / 4) := value?_symbol (by omega)
      have hx : value? (symbol (a.toNat % 4 * 16 + b.toNat / 16)) =
          some (a.toNat % 4 * 16 + b.toNat / 16) := value?_symbol (by omega)
      have hy : value? (symbol (b.toNat % 16 * 4 + c.toNat / 64)) =
          some (b.toNat % 16 * 4 + c.toNat / 64) := value?_symbol (by omega)
      have hz : value? (symbol (c.toNat % 64)) = some (c.toNat % 64) := value?_symbol (by omega)
      have hsymbol : symbol (c.toNat % 64) ≠ '=' := symbol_ne_equals (by omega)
      have hfirst := firstByte_split a (b.toNat / 16) (by omega)
      have hsecond := secondByte_split b (a.toNat % 4) (c.toNat / 64) (by omega)
      have hthird := thirdByte_split c (b.toNat % 16)
      simp only [encode]
      rw [decode?]
      · simp only [hw, hx, hy, hz, ih, Option.bind_eq_bind, Option.bind_some, Option.pure_def,
          hfirst, hsecond, hthird]
      · intro _ h
        exact absurd h hsymbol
      · exact fun h => absurd h hsymbol

end DesktopShell.Text.Base64

-- Bytes as text, three bytes in four characters of six bits each. One equals sign stands for
-- a missing third byte and two for a missing second and third one.
namespace DesktopShell.Text.Base64

def symbols : List Char :=
  "ABCDEFGHIJKLMNOPQRSTUVWXYZabcdefghijklmnopqrstuvwxyz0123456789+/".toList

def symbol (n : Nat) : Char := symbols.getD n '='

def value? (c : Char) : Option Nat := symbols.idxOf? c

def encode : List UInt8 → List Char
  | [] => []
  | [a] =>
      let a := a.toNat
      [symbol (a / 4), symbol (a % 4 * 16), '=', '=']
  | [a, b] =>
      let a := a.toNat
      let b := b.toNat
      [symbol (a / 4), symbol (a % 4 * 16 + b / 16), symbol (b % 16 * 4), '=']
  | a :: b :: c :: rest =>
      let a := a.toNat
      let b := b.toNat
      let c := c.toNat
      symbol (a / 4) :: symbol (a % 4 * 16 + b / 16) :: symbol (b % 16 * 4 + c / 64) ::
        symbol (c % 64) :: encode rest

def firstByte (w x : Nat) : UInt8 := .ofNat (w * 4 + x / 16)
def secondByte (x y : Nat) : UInt8 := .ofNat (x % 16 * 16 + y / 4)
def thirdByte (y z : Nat) : UInt8 := .ofNat (y % 4 * 64 + z)

-- Only texts that `encode` writes are read: no other characters, nothing behind the equals
-- signs, and no bits in the last character that belong to no byte.
def decode? : List Char → Option (List UInt8)
  | [] => some []
  | [a, b, '=', '='] => do
      let w ← value? a
      let x ← value? b
      if x % 16 = 0 then some [firstByte w x] else none
  | [a, b, c, '='] => do
      let w ← value? a
      let x ← value? b
      let y ← value? c
      if y % 4 = 0 then some [firstByte w x, secondByte x y] else none
  | a :: b :: c :: d :: rest => do
      let w ← value? a
      let x ← value? b
      let y ← value? c
      let z ← value? d
      let bytes ← decode? rest
      return firstByte w x :: secondByte x y :: thirdByte y z :: bytes
  | _ => none

theorem value?_symbol {n : Nat} (h : n < 64) : value? (symbol n) = some n := by
  have : ∀ i : Fin 64, value? (symbol i) = some i.val := by decide +kernel
  exact this ⟨n, h⟩

theorem symbol_ne_equals {n : Nat} (h : n < 64) : symbol n ≠ '=' := by
  have : ∀ i : Fin 64, symbol i ≠ '=' := by decide +kernel
  exact this ⟨n, h⟩

end DesktopShell.Text.Base64

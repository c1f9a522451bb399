import DesktopShell.Json.Basic
import DesktopShell.Text.Digits

namespace DesktopShell.Json

inductive Token
  | openObject
  | closeObject
  | openArray
  | closeArray
  | colon
  | comma
  | null
  | bool (value : Bool)
  | number (digits : String)
  | string (text? : Option String)
  deriving DecidableEq

-- What a character of a text is spelled by: itself, or a UTF-16 unit in hexadecimal digits.
inductive Piece
  | plain (c : Char)
  | unit (n : Nat)
  deriving DecidableEq

def unit? (a b c d : Char) : Option Nat := Text.number? 16 [a, b, c, d]

-- What a backslash and one more character stand for.
def escaped? (c : Char) : Option Char :=
  match c with
  | '"' => some '"'
  | '\\' => some '\\'
  | '/' => some '/'
  | 'b' => some '\x08'
  | 'f' => some '\x0c'
  | 'n' => some '\n'
  | 'r' => some '\r'
  | 't' => some '\t'
  | _ => none

-- The pieces up to the closing quote, and the input behind it. Control characters have to be
-- escaped.
def pieces? : List Char → Option (List Piece × List Char)
  | [] => none
  | '"' :: cs => some ([], cs)
  | '\\' :: 'u' :: a :: b :: c :: d :: cs => do
      let n ← unit? a b c d
      let (pieces, rest) ← pieces? cs
      return (.unit n :: pieces, rest)
  | '\\' :: c :: cs => do
      let c ← escaped? c
      let (pieces, rest) ← pieces? cs
      return (.plain c :: pieces, rest)
  | c :: cs =>
      if c.toNat < 0x20 then none
      else do
        let (pieces, rest) ← pieces? cs
        return (.plain c :: pieces, rest)

def isHighHalf (n : Nat) : Bool := 0xD800 ≤ n && n < 0xDC00
def isLowHalf (n : Nat) : Bool := 0xDC00 ≤ n && n < 0xE000

-- The text that the pieces spell. Two units are one character when they are the halves of a
-- surrogate pair, and a half by itself is none.
def joinPieces? : List Piece → Option (List Char)
  | [] => some []
  | .plain c :: rest => (joinPieces? rest).map (c :: ·)
  | .unit n :: .unit m :: rest =>
      if isHighHalf n then
        if isLowHalf m then
          (joinPieces? rest).map (Char.ofNat (0x10000 + (n - 0xD800) * 0x400 + (m - 0xDC00)) :: ·)
        else none
      else if isLowHalf n then none
      else (joinPieces? (.unit m :: rest)).map (Char.ofNat n :: ·)
  | .unit n :: rest =>
      if isHighHalf n || isLowHalf n then none
      else (joinPieces? rest).map (Char.ofNat n :: ·)

theorem pieces?_rest_lt {cs rest : List Char} {pieces : List Piece}
    (h : pieces? cs = some (pieces, rest)) : rest.length < cs.length := by
  fun_induction pieces? cs generalizing pieces rest with
  | case1 => simp at h
  | case2 => simp_all
  | case3 a b c d cs ih =>
      simp only [Option.bind_eq_bind, Option.bind_eq_some_iff] at h
      obtain ⟨n, _, ⟨p, r⟩, hp, he⟩ := h
      simp only [Option.pure_def, Option.some.injEq, Prod.mk.injEq] at he
      have := ih hp
      simp only [List.length_cons, ← he.2]
      omega
  | case4 c cs _ ih =>
      simp only [Option.bind_eq_bind, Option.bind_eq_some_iff] at h
      obtain ⟨n, _, ⟨p, r⟩, hp, he⟩ := h
      simp only [Option.pure_def, Option.some.injEq, Prod.mk.injEq] at he
      have := ih hp
      simp only [List.length_cons, ← he.2]
      omega
  | case5 => simp at h
  | case6 c cs _ _ _ _ ih =>
      simp only [Option.bind_eq_bind, Option.bind_eq_some_iff] at h
      obtain ⟨⟨p, r⟩, hp, he⟩ := h
      simp only [Option.pure_def, Option.some.injEq, Prod.mk.injEq] at he
      have := ih hp
      simp only [List.length_cons, ← he.2]
      omega

-- The characters that numbers are written with.
def isNumberChar (c : Char) : Bool :=
  c.isDigit || c == '-' || c == '+' || c == '.' || c == 'e' || c == 'E'

-- A number has no leading zeros, and digits on both sides of a point and behind an `e`.
def skipDigits? (cs : List Char) : Option (List Char) :=
  match cs with
  | c :: rest => if c.isDigit then some (rest.dropWhile Char.isDigit) else none
  | [] => none

def skipInteger? : List Char → Option (List Char)
  | '0' :: rest => some rest
  | cs => skipDigits? cs

def skipFraction? : List Char → Option (List Char)
  | '.' :: rest => skipDigits? rest
  | cs => some cs

def skipExponent? : List Char → Option (List Char)
  | c :: rest =>
      if c = 'e' ∨ c = 'E' then
        match rest with
        | '+' :: digits | '-' :: digits => skipDigits? digits
        | digits => skipDigits? digits
      else some (c :: rest)
  | [] => some []

def isNumber (cs : List Char) : Bool :=
  let magnitude := match cs with
    | '-' :: rest => rest
    | _ => cs
  ((skipInteger? magnitude).bind skipFraction?).bind skipExponent? == some []

def isSpace (c : Char) : Bool := c == ' ' || c == '\t' || c == '\n' || c == '\r'

def word? (cs : List Char) : Option Token :=
  if cs = "null".toList then some .null
  else if cs = "true".toList then some (.bool true)
  else if cs = "false".toList then some (.bool false)
  else none

def mark? (c : Char) : Option Token :=
  match c with
  | '{' => some .openObject
  | '}' => some .closeObject
  | '[' => some .openArray
  | ']' => some .closeArray
  | ':' => some .colon
  | ',' => some .comma
  | _ => none

-- The token that starts with a character, and the input behind it.
def token? (c : Char) (cs : List Char) : Option (Token × List Char) :=
  match mark? c with
  | some mark => some (mark, cs)
  | none =>
      if c = '"' then
        (pieces? cs).map fun (pieces, rest) =>
          (.string ((joinPieces? pieces).map String.ofList), rest)
      else if isNumberChar c then
        let digits := c :: cs.takeWhile isNumberChar
        if isNumber digits then
          some (.number (String.ofList digits), cs.dropWhile isNumberChar)
        else none
      else
        (word? (c :: cs.takeWhile Char.isAlpha)).map (·, cs.dropWhile Char.isAlpha)

theorem token?_rest_le {c : Char} {cs rest : List Char} {t : Token}
    (h : token? c cs = some (t, rest)) : rest.length ≤ cs.length := by
  have hd (p : Char → Bool) := (List.dropWhile_suffix p (l := cs)).length_le
  simp only [token?] at h
  split at h
  · simp_all
  · split at h
    · obtain ⟨⟨p, r⟩, hp, he⟩ := Option.map_eq_some_iff.1 h
      have := pieces?_rest_lt hp
      simp only [Prod.mk.injEq] at he
      rw [← he.2]
      omega
    · split at h
      · split at h
        · simp only [Option.some.injEq, Prod.mk.injEq] at h
          rw [← h.2]
          exact hd _
        · simp at h
      · obtain ⟨w, _, he⟩ := Option.map_eq_some_iff.1 h
        simp only [Prod.mk.injEq] at he
        rw [← he.2]
        exact hd _

-- A text cut into tokens. Where one ends and the next begins needs no space between them.
def tokens? : List Char → Option (List Token)
  | [] => some []
  | c :: cs =>
      if isSpace c then tokens? cs
      else match _h : token? c cs with
        | some (t, rest) => (tokens? rest).map (t :: ·)
        | none => none
termination_by cs => cs.length
decreasing_by
  · simp
  · have := token?_rest_le _h
    simp only [List.length_cons]
    omega

end DesktopShell.Json

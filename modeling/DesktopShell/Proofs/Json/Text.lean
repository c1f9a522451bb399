import DesktopShell.Json.Render

namespace DesktopShell.Json

-- A piece that spells a character, as escaped texts have them.
def Piece.Spells (p : Piece) (c : Char) : Prop :=
  p = .plain c ∨ p = .unit c.toNat ∧ c.toNat < 0x20

theorem unit?_hexDigits {n : Nat} (h : n < 32) :
    unit? '0' '0' (hexDigit (n / 16)) (hexDigit (n % 16)) = some n := by
  have hall : ∀ i : Fin 32,
      unit? '0' '0' (hexDigit (i.val / 16)) (hexDigit (i.val % 16)) = some i.val := by
    decide +kernel
  exact hall ⟨n, h⟩

variable {cs rest : List Char} {ps : List Piece}

theorem pieces?_letter {c d : Char} (hu : d ≠ 'u') (hd : escaped? d = some c)
    (h : pieces? cs = some (ps, rest)) : pieces? ('\\' :: d :: cs) = some (.plain c :: ps, rest) := by
  rw [pieces?]
  · simp only [hd, h, Option.bind_eq_bind, Option.bind_some, Option.pure_def]
  · intro _ _ _ _ _ he
    exact absurd he hu

theorem pieces?_plain {c : Char} (hq : c ≠ '"') (hb : c ≠ '\\') (hc : ¬c.toNat < 0x20)
    (h : pieces? cs = some (ps, rest)) : pieces? (c :: cs) = some (.plain c :: ps, rest) := by
  rw [pieces?, if_neg hc]
  · simp only [h, Option.bind_eq_bind, Option.bind_some, Option.pure_def]
  · exact hq
  · intro _ _ _ _ _ he
    exact absurd he hb
  · intro _ _ he
    exact absurd he hb

-- A character, escaped or not, is read as one piece.
theorem pieces?_escape (c : Char) (h : pieces? cs = some (ps, rest)) :
    ∃ p : Piece, p.Spells c ∧ pieces? (escape c ++ cs) = some (p :: ps, rest) := by
  unfold escape
  split
  case h_8 hq hb _ _ _ _ _ =>
    split
    · next hc =>
        refine ⟨.unit c.toNat, .inr ⟨rfl, hc⟩, ?_⟩
        have hunit := unit?_hexDigits hc
        simp only [List.cons_append, List.nil_append]
        rw [pieces?]
        simp only [hunit, h, Option.bind_eq_bind, Option.bind_some, Option.pure_def]
    · next hc => exact ⟨.plain c, .inl rfl, pieces?_plain hq hb hc h⟩
  -- All the others have an escape of one letter.
  all_goals exact ⟨_, .inl rfl, pieces?_letter (by decide) rfl h⟩

theorem joinPieces?_unit {n : Nat} (h : n < 0x20) (ps : List Piece) :
    joinPieces? (.unit n :: ps) = (joinPieces? ps).map (Char.ofNat n :: ·) := by
  have hhigh : isHighHalf n = false := by
    simp only [isHighHalf, Bool.and_eq_false_iff, decide_eq_false_iff_not]
    omega
  have hlow : isLowHalf n = false := by
    simp only [isLowHalf, Bool.and_eq_false_iff, decide_eq_false_iff_not]
    omega
  rcases ps with _ | ⟨c | m, ps⟩ <;> simp [joinPieces?, hhigh, hlow]

theorem joinPieces?_spells {p : Piece} {c : Char} (h : p.Spells c) (ps : List Piece) :
    joinPieces? (p :: ps) = (joinPieces? ps).map (c :: ·) := by
  rcases h with rfl | ⟨rfl, hc⟩
  · rw [joinPieces?]
  · rw [joinPieces?_unit hc, Char.ofNat_toNat]

-- Whatever characters a text has, they come back from between the quotes.
theorem exists_pieces?_escape (text rest : List Char) :
    ∃ ps, pieces? (text.flatMap escape ++ '"' :: rest) = some (ps, rest) ∧
      joinPieces? ps = some text := by
  induction text with
  | nil =>
      refine ⟨[], ?_, by rw [joinPieces?]⟩
      rw [List.flatMap_nil, List.nil_append, pieces?]
  | cons c text ih =>
      obtain ⟨ps, hread, hjoin⟩ := ih
      obtain ⟨p, hp, hread'⟩ := pieces?_escape c hread
      refine ⟨p :: ps, ?_, ?_⟩
      · rw [List.flatMap_cons, List.append_assoc, hread']
      · rw [joinPieces?_spells hp, hjoin, Option.map_some]

end DesktopShell.Json

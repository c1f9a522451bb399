import DesktopShell.Json.Parse
import DesktopShell.Proofs.Json.Lex
import Mathlib.Data.List.TakeWhile

namespace DesktopShell.Json

-- The first item of an array is read like any other value that lies in it.
theorem read_firstItem (x : Json) (stack : List Frame) :
    x.tokens.foldlM step? (.firstItem stack) = x.tokens.foldlM step? (.value (.item [] :: stack)) := by
  cases x <;> rfl

mutual

theorem read_tokens : ∀ (v : Json) (stack : List Frame),
    v.tokens.foldlM step? (.value stack) = some (.done v stack)
  | .null, _ => rfl
  | .bool _, _ => rfl
  | .number _, _ => rfl
  | .string _, _ => rfl
  | .array items, stack => by
      rw [tokens, List.foldlM_cons]
      exact read_items items stack
  | .object members, stack => by
      rw [tokens, List.foldlM_cons]
      exact read_members members stack

theorem read_items : ∀ (xs : List Json) (stack : List Frame),
    (itemTokens xs ++ [Token.closeArray]).foldlM step? (.firstItem stack) =
      some (.done (.array xs) stack)
  | [], _ => rfl
  | x :: xs, stack => by
      rw [itemTokens, List.append_assoc, List.foldlM_append, read_firstItem, read_tokens x]
      exact read_moreItems xs x [] stack

theorem read_moreItems : ∀ (xs : List Json) (v : Json) (before : List Json) (stack : List Frame),
    (moreItemTokens xs ++ [Token.closeArray]).foldlM step? (.done v (.item before :: stack)) =
      some (.done (.array (before.reverse ++ v :: xs)) stack)
  | [], v, before, stack => by
      rw [← List.reverse_cons]
      rfl
  | x :: xs, v, before, stack => by
      rw [moreItemTokens, List.cons_append, List.foldlM_cons, List.append_assoc]
      show (tokens x ++ (moreItemTokens xs ++ [Token.closeArray])).foldlM step?
        (.value (.item (v :: before) :: stack)) = _
      rw [List.foldlM_append, read_tokens x]
      refine (read_moreItems xs x (v :: before) stack).trans ?_
      rw [List.reverse_cons, List.append_assoc, List.singleton_append]

theorem read_members : ∀ (xs : List (Option String × Json)) (stack : List Frame),
    (memberTokens xs ++ [Token.closeObject]).foldlM step? (.firstKey stack) =
      some (.done (.object xs) stack)
  | [], _ => rfl
  | (key, x) :: xs, stack => by
      rw [memberTokens, List.cons_append, List.cons_append, List.append_assoc]
      show (tokens x ++ (moreMemberTokens xs ++ [Token.closeObject])).foldlM step?
        (.value (.member [] key :: stack)) = _
      rw [List.foldlM_append, read_tokens x]
      exact read_moreMembers xs key x [] stack

theorem read_moreMembers : ∀ (xs : List (Option String × Json)) (key : Option String) (v : Json)
    (before : List (Option String × Json)) (stack : List Frame),
    (moreMemberTokens xs ++ [Token.closeObject]).foldlM step? (.done v (.member before key :: stack)) =
      some (.done (.object (before.reverse ++ (key, v) :: xs)) stack)
  | [], key, v, before, stack => by
      rw [← List.reverse_cons]
      rfl
  | (name, x) :: xs, key, v, before, stack => by
      rw [moreMemberTokens, List.cons_append, List.cons_append, List.cons_append, List.append_assoc]
      show (tokens x ++ (moreMemberTokens xs ++ [Token.closeObject])).foldlM step?
        (.value (.member ((key, v) :: before) name :: stack)) = _
      rw [List.foldlM_append, read_tokens x]
      refine (read_moreMembers xs name x ((key, v) :: before) stack).trans ?_
      rw [List.reverse_cons, List.append_assoc, List.singleton_append]

end

theorem ofTokens?_tokens (v : Json) : ofTokens? v.tokens = some v := by
  rw [ofTokens?, read_tokens]

-- A value is read back from its text, however it is nested.
theorem parse?_render {v : Json} (h : v.Sound) : parse? v.render = some v := by
  rw [parse?, tokens?_render h, Option.bind_some, ofTokens?_tokens]

-- Decimal digits start with a zero only when there is nothing behind it.
theorem head_toDigits {n : Nat} (hn : 0 < n) : ∀ c ∈ (Nat.toDigits 10 n).head?, c ≠ '0' := by
  induction n using Nat.strongRecOn with
  | ind n ih =>
      by_cases hlt : n < 10
      · rw [Nat.toDigits_of_lt_base hlt]
        intro c hc
        obtain rfl : n.digitChar = c := Option.some.inj hc
        have hall : ∀ i : Fin 10, 0 < i.val → i.val.digitChar ≠ '0' := by decide
        exact hall ⟨n, hlt⟩ hn
      · have hhead := ih (n / 10) (by omega) (by omega)
        obtain ⟨d, ds, hds⟩ := List.exists_cons_of_ne_nil (Nat.toDigits_ne_nil (n := n / 10) (b := 10))
        rw [hds] at hhead
        rw [Nat.toDigits_of_base_le (by decide) (by omega), hds]
        exact hhead

theorem skipInteger?_digits {c : Char} {cs : List Char} (hc : c ≠ '0' ∨ cs = [])
    (hdigits : ∀ d ∈ c :: cs, d.isDigit = true) : skipInteger? (c :: cs) = some [] := by
  unfold skipInteger?
  split
  · next rest he =>
      obtain ⟨rfl, rfl⟩ := List.cons.inj he
      rcases hc with hc | hc
      · exact absurd rfl hc
      · rw [hc]
  · have hrest : cs.dropWhile Char.isDigit = [] :=
      List.dropWhile_eq_nil_iff.mpr fun d hd => hdigits d (List.mem_cons_of_mem c hd)
    rw [skipDigits?, if_pos (hdigits c List.mem_cons_self), hrest]

theorem isNumber_repr (n : Nat) : isNumber (Nat.repr n).toList = true := by
  have hdigits := Text.isDigit_of_mem_repr n
  obtain ⟨c, cs, hcs⟩ := List.exists_cons_of_ne_nil (Text.toList_repr_ne_nil n)
  have hhead : c ≠ '0' ∨ cs = [] := by
    rcases Nat.eq_zero_or_pos n with rfl | hn
    · right
      rw [Nat.toList_repr, Nat.toDigits_zero] at hcs
      exact (List.cons.inj hcs).2.symm
    · left
      apply head_toDigits hn
      rw [← Nat.toList_repr, hcs]
      rfl
  rw [hcs] at hdigits ⊢
  have hminus : c ≠ '-' := by
    intro he
    have hc := hdigits c List.mem_cons_self
    rw [he] at hc
    exact absurd hc (by decide)
  have hskip := skipInteger?_digits hhead hdigits
  unfold isNumber
  split
  · next he => exact absurd (List.cons.inj he).1 hminus
  · simp [hskip, skipFraction?, skipExponent?]

theorem sound_ofNat (n : Nat) : (ofNat n).Sound := by
  refine .number ⟨isNumber_repr n, Text.toList_repr_ne_nil n, fun c hc => ?_⟩
  simp [isNumberChar, Text.isDigit_of_mem_repr n c hc]

theorem sound_ofMembers {ms : List (String × Json)} (h : ∀ m ∈ ms, m.2.Sound) :
    (ofMembers ms).Sound := by
  refine .object (fun m hm => ?_) fun m hm => ?_
  · obtain ⟨m', -, rfl⟩ := List.mem_map.mp hm
    rfl
  · obtain ⟨m', hm', rfl⟩ := List.mem_map.mp hm
    exact h m' hm'

end DesktopShell.Json

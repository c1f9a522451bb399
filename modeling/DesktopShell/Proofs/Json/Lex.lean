import DesktopShell.Proofs.Json.Text
import DesktopShell.Proofs.Text.Digits

namespace DesktopShell.Json

-- Tokens that spell something that can be read again: a text that is there, and a number that is
-- written as one.
def Token.Sound : Token → Prop
  | .number digits => isNumber digits.toList = true ∧ digits.toList ≠ [] ∧
      ∀ c ∈ digits.toList, isNumberChar c = true
  | .string text? => text?.isSome = true
  | _ => True

-- Marks stand out from whatever is before them.
def Token.IsMark (t : Token) : Prop :=
  ∃ c, t.chars = [c] ∧ mark? c = some t

-- Behind a number or a word the input ends or goes on with a mark.
def Boundary (rest : List Char) : Prop :=
  ∀ c ∈ rest.head?, (mark? c).isSome = true

theorem mark_cases {c : Char} (h : (mark? c).isSome = true) :
    c = '{' ∨ c = '}' ∨ c = '[' ∨ c = ']' ∨ c = ':' ∨ c = ',' := by
  unfold mark? at h
  split at h <;> simp_all

theorem boundary_nil : Boundary [] := by
  intro c hc
  simp at hc

theorem tokens?_cons {c : Char} {cs rest : List Char} {t : Token} (hs : isSpace c = false)
    (h : token? c cs = some (t, rest)) : tokens? (c :: cs) = (tokens? rest).map (t :: ·) := by
  rw [tokens?, if_neg (by simp [hs])]
  split
  · next h' =>
      obtain ⟨rfl, rfl⟩ := Prod.mk.inj (Option.some.inj (h'.symm.trans h))
      rfl
  · next h' => exact absurd (h'.symm.trans h) (by simp)

theorem tokens?_mark {t : Token} (h : t.IsMark) (rest : List Char) :
    tokens? (t.chars ++ rest) = (tokens? rest).map (t :: ·) := by
  obtain ⟨c, hchars, hmark⟩ := h
  have hspace : isSpace c = false := by
    rcases mark_cases (Option.isSome_of_eq_some hmark) with rfl | rfl | rfl | rfl | rfl | rfl <;> rfl
  rw [hchars, List.singleton_append]
  apply tokens?_cons hspace
  rw [token?, hmark]

theorem tokens?_string (text : String) (rest : List Char) :
    tokens? ((Token.string (some text)).chars ++ rest) =
      (tokens? rest).map (Token.string (some text) :: ·) := by
  obtain ⟨ps, hread, hjoin⟩ := exists_pieces?_escape text.toList rest
  have hchars : (Token.string (some text)).chars ++ rest =
      '"' :: (text.toList.flatMap escape ++ '"' :: rest) := by
    show '"' :: (text.toList.flatMap escape ++ ['"'] ++ rest) = _
    rw [List.append_assoc, List.singleton_append]
  rw [hchars]
  apply tokens?_cons rfl
  have hmark : mark? '"' = none := rfl
  rw [token?, hmark]
  simp only [if_true, hread, hjoin, Option.map_some, String.ofList_toList]

-- A run of characters that a test accepts ends where the rest begins.
theorem takeWhile_boundary {p : Char → Bool} (hp : ∀ c, (mark? c).isSome = true → p c = false)
    {cs rest : List Char} (hcs : ∀ c ∈ cs, p c = true) (hrest : Boundary rest) :
    (cs ++ rest).takeWhile p = cs ∧ (cs ++ rest).dropWhile p = rest := by
  rw [List.takeWhile_append_of_pos hcs, List.dropWhile_append_of_pos hcs]
  cases rest with
  | nil => exact ⟨List.append_nil cs, rfl⟩
  | cons c rest =>
      have hc := hp c (hrest c rfl)
      rw [List.takeWhile_cons_of_neg (by simp [hc]), List.dropWhile_cons_of_neg (by simp [hc])]
      exact ⟨List.append_nil cs, rfl⟩

theorem tokens?_number {digits : String} (h : (Token.number digits).Sound) {rest : List Char}
    (hrest : Boundary rest) :
    tokens? ((Token.number digits).chars ++ rest) = (tokens? rest).map (Token.number digits :: ·) := by
  obtain ⟨hnumber, hne, hchars⟩ := h
  obtain ⟨c, cs, hcs⟩ := List.exists_cons_of_ne_nil hne
  show tokens? (digits.toList ++ rest) = _
  rw [hcs, List.cons_append]
  rw [hcs] at hnumber hchars
  have hc := hchars c List.mem_cons_self
  have hother : ∀ d, (mark? d).isSome = true → isNumberChar d = false := by
    intro d hd
    rcases mark_cases hd with rfl | rfl | rfl | rfl | rfl | rfl <;> rfl
  have hmark : mark? c = none := by
    cases hm : mark? c with
    | none => rfl
    | some t => exact absurd (hc.symm.trans (hother c (by rw [hm]; rfl))) (by decide)
  have hquote : c ≠ '"' := by
    intro he
    rw [he] at hc
    exact absurd hc (by decide)
  have hspace : isSpace c = false := by
    cases hs : isSpace c with
    | false => rfl
    | true =>
        simp only [isSpace, Bool.or_eq_true, beq_iff_eq] at hs
        rcases hs with ((rfl | rfl) | rfl) | rfl <;> exact absurd hc (by decide)
  obtain ⟨htake, hdrop⟩ :=
    takeWhile_boundary hother (fun d hd => hchars d (List.mem_cons_of_mem c hd)) hrest
  have htext : String.ofList (c :: cs) = digits := by
    rw [← hcs, String.ofList_toList]
  apply tokens?_cons hspace
  rw [token?, hmark]
  simp only [if_neg hquote, if_pos hc, htake, hdrop, if_pos hnumber, htext]

theorem tokens?_word {c : Char} {cs rest : List Char} {t : Token} (hspace : isSpace c = false)
    (hmark : mark? c = none) (hquote : c ≠ '"') (hnumber : isNumberChar c = false)
    (hcs : cs.all Char.isAlpha = true) (hword : word? (c :: cs) = some t) (hrest : Boundary rest) :
    tokens? (c :: cs ++ rest) = (tokens? rest).map (t :: ·) := by
  have hother : ∀ d, (mark? d).isSome = true → d.isAlpha = false := by
    intro d hd
    rcases mark_cases hd with rfl | rfl | rfl | rfl | rfl | rfl <;> rfl
  obtain ⟨htake, hdrop⟩ := takeWhile_boundary hother (List.all_eq_true.mp hcs) hrest
  rw [List.cons_append]
  apply tokens?_cons hspace
  rw [token?, hmark]
  simp only [if_neg hquote, hnumber, Bool.false_eq_true, if_false, htake, hdrop, hword,
    Option.map_some]

-- A sound token is read as it was written, if need be up to a boundary.
theorem tokens?_token {t : Token} (h : t.Sound) {rest : List Char} (hrest : Boundary rest) :
    tokens? (t.chars ++ rest) = (tokens? rest).map (t :: ·) := by
  cases t with
  | openObject => exact tokens?_mark ⟨'{', rfl, rfl⟩ rest
  | closeObject => exact tokens?_mark ⟨'}', rfl, rfl⟩ rest
  | openArray => exact tokens?_mark ⟨'[', rfl, rfl⟩ rest
  | closeArray => exact tokens?_mark ⟨']', rfl, rfl⟩ rest
  | colon => exact tokens?_mark ⟨':', rfl, rfl⟩ rest
  | comma => exact tokens?_mark ⟨',', rfl, rfl⟩ rest
  | null => exact tokens?_word rfl rfl (by decide) rfl rfl rfl hrest
  | bool b =>
      cases b with
      | true => exact tokens?_word rfl rfl (by decide) rfl rfl rfl hrest
      | false => exact tokens?_word rfl rfl (by decide) rfl rfl rfl hrest
  | number digits => exact tokens?_number h hrest
  | string text? =>
      obtain ⟨text, rfl⟩ := Option.isSome_iff_exists.mp h
      exact tokens?_string text rest

-- Tokens that are read as they were written, whatever comes behind them, up to a boundary.
def Lexes (ts : List Token) : Prop :=
  ∀ rest, Boundary rest → tokens? (ts.flatMap Token.chars ++ rest) = (tokens? rest).map (ts ++ ·)

theorem lexes_nil : Lexes [] := by
  intro rest _
  simp

theorem lexes_token {t : Token} (h : t.Sound) : Lexes [t] := by
  intro rest hrest
  rw [List.flatMap_singleton, tokens?_token h hrest]
  rfl

theorem lexes_mark_cons {t : Token} {ts : List Token} (ht : t.IsMark) (h : Lexes ts) :
    Lexes (t :: ts) := by
  intro rest hrest
  rw [List.flatMap_cons, List.append_assoc, tokens?_mark ht, h rest hrest, Option.map_map]
  rfl

theorem lexes_string_cons {text : String} {ts : List Token} (h : Lexes ts) :
    Lexes (.string (some text) :: ts) := by
  intro rest hrest
  rw [List.flatMap_cons, List.append_assoc, tokens?_string, h rest hrest, Option.map_map]
  rfl

theorem boundary_mark {t : Token} (h : t.IsMark) (rest : List Char) : Boundary (t.chars ++ rest) := by
  obtain ⟨c, hchars, hmark⟩ := h
  intro d hd
  rw [hchars, List.singleton_append, List.head?_cons] at hd
  obtain rfl : c = d := Option.some.inj hd
  rw [hmark]
  rfl

theorem lexes_append {ts ts' : List Token} (h : Lexes ts) (h' : Lexes ts')
    (hmark : ∀ t ∈ ts'.head?, t.IsMark) : Lexes (ts ++ ts') := by
  intro rest hrest
  have hboundary : Boundary (ts'.flatMap Token.chars ++ rest) := by
    cases ts' with
    | nil => exact hrest
    | cons t ts' =>
        rw [List.flatMap_cons, List.append_assoc]
        exact boundary_mark (hmark t rfl) _
  rw [List.flatMap_append, List.append_assoc, h _ hboundary, h' rest hrest, Option.map_map]
  congr 1
  funext us
  exact (List.append_assoc ts ts' us).symm

theorem isMark_comma : Token.comma.IsMark := ⟨',', rfl, rfl⟩

theorem isMark_closeArray : Token.closeArray.IsMark := ⟨']', rfl, rfl⟩

theorem isMark_closeObject : Token.closeObject.IsMark := ⟨'}', rfl, rfl⟩

theorem isMark_head_moreItems (xs : List Json) : ∀ t ∈ (moreItemTokens xs).head?, t.IsMark := by
  intro t ht
  cases xs with
  | nil => simp [moreItemTokens] at ht
  | cons x xs =>
      obtain rfl : Token.comma = t := by simpa [moreItemTokens] using ht
      exact isMark_comma

theorem isMark_head_moreMembers (xs : List (Option String × Json)) :
    ∀ t ∈ (moreMemberTokens xs).head?, t.IsMark := by
  intro t ht
  cases xs with
  | nil => simp [moreMemberTokens] at ht
  | cons x xs =>
      obtain rfl : Token.comma = t := by simpa [moreMemberTokens] using ht
      exact isMark_comma

-- A value that spells something in all its parts.
inductive Sound : Json → Prop
  | null : Sound .null
  | bool (b : Bool) : Sound (.bool b)
  | number {digits : String} (written : (Token.number digits).Sound) : Sound (.number digits)
  | string (text : String) : Sound (.string (some text))
  | array {items : List Json} (below : ∀ x ∈ items, Sound x) : Sound (.array items)
  | object {members : List (Option String × Json)} (keys : ∀ m ∈ members, m.1.isSome = true)
      (below : ∀ m ∈ members, Sound m.2) : Sound (.object members)

mutual

theorem lexes_tokens : ∀ v : Json, v.Sound → Lexes v.tokens
  | .null, _ => lexes_token trivial
  | .bool b, _ => lexes_token trivial
  | .number digits, .number written => lexes_token written
  | .string _, .string text => lexes_token rfl
  | .array items, .array below => by
      rw [tokens]
      exact lexes_mark_cons ⟨'[', rfl, rfl⟩
        (lexes_append (lexes_items items below) (lexes_token trivial) (by simp [isMark_closeArray]))
  | .object members, .object keys below => by
      rw [tokens]
      exact lexes_mark_cons ⟨'{', rfl, rfl⟩
        (lexes_append (lexes_members members keys below) (lexes_token trivial)
          (by simp [isMark_closeObject]))

theorem lexes_items : ∀ xs : List Json, (∀ x ∈ xs, x.Sound) → Lexes (itemTokens xs)
  | [], _ => lexes_nil
  | x :: xs, h => by
      have hx := lexes_tokens x (h x List.mem_cons_self)
      have hxs := lexes_moreItems xs fun y hy => h y (List.mem_cons_of_mem x hy)
      exact lexes_append hx hxs (isMark_head_moreItems xs)

theorem lexes_moreItems : ∀ xs : List Json, (∀ x ∈ xs, x.Sound) → Lexes (moreItemTokens xs)
  | [], _ => lexes_nil
  | x :: xs, h => by
      have hx := lexes_tokens x (h x List.mem_cons_self)
      have hxs := lexes_moreItems xs fun y hy => h y (List.mem_cons_of_mem x hy)
      exact lexes_mark_cons isMark_comma (lexes_append hx hxs (isMark_head_moreItems xs))

theorem lexes_members : ∀ ms : List (Option String × Json), (∀ m ∈ ms, m.1.isSome = true) →
    (∀ m ∈ ms, m.2.Sound) → Lexes (memberTokens ms)
  | [], _, _ => lexes_nil
  | (key, x) :: ms, hkeys, h => by
      obtain ⟨name, rfl⟩ := Option.isSome_iff_exists.mp (hkeys _ List.mem_cons_self)
      have hx := lexes_tokens x (h _ List.mem_cons_self)
      have hms := lexes_moreMembers ms (fun m hm => hkeys m (List.mem_cons_of_mem _ hm))
        fun m hm => h m (List.mem_cons_of_mem _ hm)
      exact lexes_string_cons
        (lexes_mark_cons ⟨':', rfl, rfl⟩ (lexes_append hx hms (isMark_head_moreMembers ms)))

theorem lexes_moreMembers : ∀ ms : List (Option String × Json), (∀ m ∈ ms, m.1.isSome = true) →
    (∀ m ∈ ms, m.2.Sound) → Lexes (moreMemberTokens ms)
  | [], _, _ => lexes_nil
  | (key, x) :: ms, hkeys, h => by
      obtain ⟨name, rfl⟩ := Option.isSome_iff_exists.mp (hkeys _ List.mem_cons_self)
      have hx := lexes_tokens x (h _ List.mem_cons_self)
      have hms := lexes_moreMembers ms (fun m hm => hkeys m (List.mem_cons_of_mem _ hm))
        fun m hm => h m (List.mem_cons_of_mem _ hm)
      exact lexes_mark_cons isMark_comma (lexes_string_cons
        (lexes_mark_cons ⟨':', rfl, rfl⟩ (lexes_append hx hms (isMark_head_moreMembers ms))))

end

theorem tokens?_render {v : Json} (h : v.Sound) : tokens? v.render.toList = some v.tokens := by
  have hlex := lexes_tokens v h [] boundary_nil
  rw [List.append_nil] at hlex
  rw [render, String.toList_ofList, hlex, tokens?, Option.map_some, List.append_nil]

end DesktopShell.Json

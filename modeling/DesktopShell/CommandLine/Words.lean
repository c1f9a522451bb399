import DesktopShell.Text.Blank

-- A line is cut into words at blanks. Quotes keep blanks in a word and are dropped, a
-- backslash takes the next character as it is. No input is malformed: a quote left open and
-- a backslash at the end just end with the line, and a word of no characters is no word.
namespace DesktopShell.CommandLine

-- The rest of the word at the start of the input, and the input behind it. `quote` is the
-- quotation mark that is open, `escaped` says that a backslash came just before.
def readWord (quote : Option Char) (escaped : Bool) : List Char → List Char × List Char
  | [] => ([], [])
  | c :: cs =>
      if escaped then
        let (word, rest) := readWord quote false cs
        (c :: word, rest)
      else if c = '\\' then readWord quote true cs
      else match quote with
        | some mark =>
            if c = mark then readWord none false cs
            else
              let (word, rest) := readWord quote false cs
              (c :: word, rest)
        | none =>
            if c = '"' ∨ c = '\'' then readWord (some c) false cs
            else if Text.isBlank c then ([], cs)
            else
              let (word, rest) := readWord none false cs
              (c :: word, rest)

theorem readWord_rest_le (quote : Option Char) (escaped : Bool) (cs : List Char) :
    (readWord quote escaped cs).2.length ≤ cs.length - 1 := by
  induction cs generalizing quote escaped with
  | nil => simp [readWord]
  | cons c cs ih =>
      have hq := fun quote escaped => ih quote escaped
      simp only [readWord, List.length_cons, Nat.add_sub_cancel]
      split
      · have := hq quote false; simp only; omega
      · split
        · have := hq quote true; omega
        · split
          · split
            · have := hq none false; omega
            · next mark _ => have := hq (some mark) false; simp only; omega
          · split
            · have := hq (some c) false; omega
            · split
              · simp
              · have := hq none false; simp only; omega

-- The first word of the input and the input behind it.
def nextWord? (input : List Char) : Option (List Char × List Char) :=
  match _h : input.dropWhile Text.isBlank with
  | [] => none
  | c :: cs =>
      let found := readWord none false (c :: cs)
      if found.1 = [] then nextWord? found.2 else some found
termination_by input.length
decreasing_by
  have hd := (List.dropWhile_suffix Text.isBlank (l := input)).length_le
  have hr := readWord_rest_le none false (c :: cs)
  simp only [_h, List.length_cons] at hd hr
  omega

theorem nextWord?_rest_lt {input word rest : List Char} (h : nextWord? input = some (word, rest)) :
    rest.length < input.length := by
  fun_induction nextWord? input with
  | case1 => simp at h
  | case2 input c cs hd found hf ih =>
      have hl := (List.dropWhile_suffix Text.isBlank (l := input)).length_le
      have hr : found.2.length ≤ (c :: cs).length - 1 := readWord_rest_le none false (c :: cs)
      have := ih h
      simp only [hd, List.length_cons] at hl hr
      omega
  | case3 input c cs hd found hf =>
      have hl := (List.dropWhile_suffix Text.isBlank (l := input)).length_le
      have hr : found.2.length ≤ (c :: cs).length - 1 := readWord_rest_le none false (c :: cs)
      have he : rest = found.2 := by injection h with h; rw [h]
      simp only [hd, List.length_cons] at hl hr
      rw [he]
      omega

def wordsFrom (input : List Char) : List (List Char) :=
  match _h : nextWord? input with
  | none => []
  | some (word, rest) => word :: wordsFrom rest
termination_by input.length
decreasing_by exact nextWord?_rest_lt _h

def words (line : String) : List String :=
  (wordsFrom line.toList).map String.ofList

-- The first `n` words, read without looking at the line behind them.
def firstWordsFrom : Nat → List Char → List (List Char)
  | 0, _ => []
  | n + 1, input =>
      match nextWord? input with
      | none => []
      | some (word, rest) => word :: firstWordsFrom n rest

def firstWords (n : Nat) (line : String) : List String :=
  (firstWordsFrom n line.toList).map String.ofList

end DesktopShell.CommandLine

import DesktopShell.CommandLine.Words

namespace DesktopShell

theorem Text.not_special_of_isBlank {c : Char} (h : isBlank c = true) :
    c ≠ '\\' ∧ c ≠ '"' ∧ c ≠ '\'' := by
  refine ⟨?_, ?_, ?_⟩ <;> rintro rfl <;> revert h <;> decide

namespace CommandLine

-- A line is read in one pass. `found` are the words that have ended, `word` is the one being read,
-- `quote` is the quotation mark that is open, `escaped` says that a backslash came just before.
structure Scan where
  found : List (List Char)
  word : List Char
  quote : Option Char
  escaped : Bool

namespace Scan

-- Between two words.
def between (found : List (List Char)) : Scan := ⟨found, [], none, false⟩

def add (s : Scan) (c : Char) : Scan :=
  { s with word := s.word ++ [c], escaped := false }

-- The word ends. It counts only if there is something in it.
def endWord (s : Scan) : Scan :=
  between (if s.word = [] then s.found else s.found ++ [s.word])

def step (s : Scan) (c : Char) : Scan :=
  if s.escaped then s.add c
  else if c = '\\' then { s with escaped := true }
  else match s.quote with
    | some mark => if c = mark then { s with quote := none } else s.add c
    | none =>
        if c = '"' ∨ c = '\'' then { s with quote := some c }
        else if Text.isBlank c then s.endWord
        else s.add c

def run (s : Scan) (input : List Char) : Scan :=
  input.foldl step s

-- The words found when the end of the line has ended the last one.
def words (s : Scan) (input : List Char) : List (List Char) :=
  (s.run input).endWord.found

variable (s : Scan) (input : List Char)

theorem run_cons (c : Char) : s.run (c :: input) = (s.step c).run input := rfl

theorem run_append (more : List Char) : s.run (input ++ more) = (s.run input).run more :=
  List.foldl_append

theorem endWord_between (found : List (List Char)) : (between found).endWord = between found := rfl

theorem step_escaped (c : Char) (h : s.escaped = true) : s.step c = s.add c := by
  rw [step, if_pos h]

theorem step_backslash (h : s.escaped = false) : s.step '\\' = { s with escaped := true } := by
  simp [step, h]

theorem step_blank {c : Char} (hescaped : s.escaped = false) (hquote : s.quote = none)
    (h : Text.isBlank c = true) : s.step c = s.endWord := by
  obtain ⟨hbackslash, hdouble, hsingle⟩ := Text.not_special_of_isBlank h
  simp [step, hescaped, hquote, hbackslash, hdouble, hsingle, h]

-- Blanks between words are passed over.
theorem run_blanks (found : List (List Char)) (h : ∀ c ∈ input, Text.isBlank c = true) :
    (between found).run input = between found := by
  induction input with
  | nil => rfl
  | cons c input ih =>
      rw [run_cons, step_blank _ rfl rfl (h c (by simp)), endWord_between]
      exact ih fun d hd => h d (by simp [hd])

theorem run_dropWhile (found : List (List Char)) :
    (between found).run (input.dropWhile Text.isBlank) = (between found).run input := by
  induction input with
  | nil => rfl
  | cons c input ih =>
      by_cases hblank : Text.isBlank c = true
      · rw [List.dropWhile_cons_of_pos hblank, ih, run_cons, step_blank _ rfl rfl hblank,
          endWord_between]
      · rw [List.dropWhile_cons_of_neg hblank]

-- The word at hand goes on with `rest` and ends.
def endWith (s : Scan) (rest : List Char) : Scan :=
  { s with word := s.word ++ rest }.endWord

theorem endWith_eq (rest : List Char) :
    s.endWith rest =
      between (if s.word ++ rest = [] then s.found else s.found ++ [s.word ++ rest]) := rfl

theorem endWith_cons (c : Char) (rest : List Char) : s.endWith (c :: rest) = (s.add c).endWith rest := by
  simp [endWith_eq, add]

-- What is read of a word in one go is what the pass adds to the word at hand before it ends. If the
-- line ends first, there is nothing left that could add more.
theorem run_readWord :
    (s.run input).endWord =
      ((s.endWith (readWord s.quote s.escaped input).1).run
        (readWord s.quote s.escaped input).2).endWord := by
  induction input generalizing s with
  | nil =>
      rw [readWord, endWith, List.append_nil]
      rfl
  | cons c input ih =>
      obtain ⟨found, word, quote, escaped⟩ := s
      rw [run_cons]
      cases escaped with
      | true => simp [step, readWord, ih, endWith_cons, add]
      | false =>
          by_cases hbackslash : c = '\\'
          · simp [step, readWord, ih, hbackslash, endWith_eq]
          cases quote with
          | some mark =>
              by_cases hcloses : c = mark
              · subst hcloses
                simp [step, readWord, ih, hbackslash, endWith_eq]
              · simp [step, readWord, ih, hbackslash, hcloses, endWith_cons, add]
          | none =>
              by_cases hopens : c = '"' ∨ c = '\''
              · simp [step, readWord, ih, hbackslash, hopens, endWith_eq]
              by_cases hblank : Text.isBlank c = true
              · simp [step, readWord, hbackslash, hopens, hblank, endWith]
              · simp [step, readWord, ih, hbackslash, hopens, hblank, endWith_cons, add]

theorem run_between_readWord (found : List (List Char)) :
    let read := readWord none false input
    ((between found).run input).endWord =
      ((between (if read.1 = [] then found else found ++ [read.1])).run read.2).endWord :=
  run_readWord (between found) input

theorem run_nextWord? (found : List (List Char)) :
    ((between found).run input).endWord =
      match nextWord? input with
      | none => between found
      | some (word, rest) => ((between (found ++ [word])).run rest).endWord := by
  fun_induction nextWord? input with
  | case1 input hblank =>
      rw [← run_dropWhile, hblank]
      rfl
  | case2 input c cs hrest read hempty ih =>
      rw [← run_dropWhile, hrest, run_between_readWord, if_pos hempty, ih]
  | case3 input c cs hrest read hword =>
      rw [← run_dropWhile, hrest, run_between_readWord, if_neg hword]

theorem words_between (found : List (List Char)) :
    (between found).words input = found ++ wordsFrom input := by
  unfold words
  fun_induction wordsFrom input generalizing found with
  | case1 input hnone =>
      rw [run_nextWord?, hnone, List.append_nil]
      rfl
  | case2 input word rest hsome ih =>
      rw [run_nextWord?, hsome, ih, List.append_assoc]
      rfl

end Scan

theorem firstWordsFrom_eq (n : Nat) (input : List Char) :
    firstWordsFrom n input = (wordsFrom input).take n := by
  fun_induction wordsFrom input generalizing n with
  | case1 input hnone =>
      cases n with
      | zero => rfl
      | succ n => rw [firstWordsFrom, hnone, List.take_nil]
  | case2 input word rest hsome ih =>
      cases n with
      | zero => rfl
      | succ n => rw [firstWordsFrom, hsome, List.take_succ_cons, ← ih]

-- The words of a line are those found by reading it in one pass, and whoever stops after some of
-- them has read the first ones.
theorem words_eq_scan (line : String) :
    words line = ((Scan.between []).words line.toList).map String.ofList ∧
      ∀ n, firstWords n line =
        (((Scan.between []).words line.toList).take n).map String.ofList := by
  have hwords : (Scan.between []).words line.toList = wordsFrom line.toList :=
    Scan.words_between line.toList []
  rw [hwords]
  refine ⟨rfl, fun n => ?_⟩
  rw [firstWords, firstWordsFrom_eq]

end CommandLine

end DesktopShell

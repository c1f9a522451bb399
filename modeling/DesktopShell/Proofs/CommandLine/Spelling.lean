import DesktopShell.Proofs.CommandLine.Scan

namespace DesktopShell.CommandLine

inductive Mark
  | single
  | double

def Mark.char : Mark → Char
  | .single => '\''
  | .double => '"'

-- A piece of a word as it is written: a character behind a backslash, a character that needs none,
-- or a run of characters between two quotation marks.
inductive Piece
  | escaped (c : Char)
  | bare (c : Char) (ordinary : Text.isBlank c = false ∧ c ≠ '"' ∧ c ≠ '\'' ∧ c ≠ '\\')
  | quoted (mark : Mark) (run : List Char) (clean : ∀ c ∈ run, c ≠ mark.char ∧ c ≠ '\\')

namespace Piece

def text : Piece → List Char
  | escaped c => ['\\', c]
  | bare c _ => [c]
  | quoted mark run _ => mark.char :: (run ++ [mark.char])

def meaning : Piece → List Char
  | escaped c => [c]
  | bare c _ => [c]
  | quoted _ run _ => run

end Piece

-- A word written piece by piece. Pieces may mean nothing, but not all of them.
structure Spelling where
  pieces : List Piece
  word_ne : pieces.flatMap Piece.meaning ≠ []

namespace Spelling

def text (s : Spelling) : List Char :=
  s.pieces.flatMap Piece.text

def word (s : Spelling) : List Char :=
  s.pieces.flatMap Piece.meaning

end Spelling

-- Blanks at the start of a line, and words with the blanks behind each of them. Behind the last word
-- there need not be any.
structure Layout where
  lead : List Char
  entries : List (Spelling × List Char)
  lead_blank : ∀ c ∈ lead, Text.isBlank c = true
  gaps_blank : ∀ entry ∈ entries, ∀ c ∈ entry.2, Text.isBlank c = true
  apart : ∀ entry ∈ entries.dropLast, entry.2 ≠ []

namespace Layout

def text (l : Layout) : List Char :=
  l.lead ++ l.entries.flatMap fun entry => entry.1.text ++ entry.2

def words (l : Layout) : List (List Char) :=
  l.entries.map fun entry => entry.1.word

end Layout

namespace Scan

-- In a word, outside of quotes.
def within (found : List (List Char)) (word : List Char) : Scan := ⟨found, word, none, false⟩

variable (found : List (List Char)) (word : List Char)

theorem run_clean (mark : Mark) (run : List Char)
    (clean : ∀ c ∈ run, c ≠ mark.char ∧ c ≠ '\\') :
    Scan.run ⟨found, word, some mark.char, false⟩ run =
      ⟨found, word ++ run, some mark.char, false⟩ := by
  induction run generalizing word with
  | nil => simp [Scan.run]
  | cons c run ih =>
      obtain ⟨hmark, hbackslash⟩ := clean c (by simp)
      have hstep : step ⟨found, word, some mark.char, false⟩ c =
          ⟨found, word ++ [c], some mark.char, false⟩ := by
        simp [step, add, hmark, hbackslash]
      rw [run_cons, hstep, ih _ fun d hd => clean d (by simp [hd])]
      simp

theorem run_piece (piece : Piece) :
    (within found word).run piece.text = within found (word ++ piece.meaning) := by
  cases piece with
  | escaped c =>
      rw [Piece.text, run_cons, step_backslash _ rfl, run_cons, step_escaped _ _ rfl]
      rfl
  | bare c ordinary =>
      obtain ⟨hblank, hdouble, hsingle, hbackslash⟩ := ordinary
      simp [Piece.text, Piece.meaning, run, step, within, add, hblank, hdouble, hsingle, hbackslash]
  | quoted mark run clean =>
      have hopens : (within found word).step mark.char = ⟨found, word, some mark.char, false⟩ := by
        cases mark <;> rfl
      have hcloses : step ⟨found, word ++ run, some mark.char, false⟩ mark.char =
          within found (word ++ run) := by
        cases mark <;> simp [step, within, Mark.char]
      rw [Piece.text, run_cons, hopens, run_append, run_clean found word mark run clean, run_cons,
        hcloses]
      rfl

theorem run_pieces (pieces : List Piece) :
    (within found word).run (pieces.flatMap Piece.text) =
      within found (word ++ pieces.flatMap Piece.meaning) := by
  induction pieces generalizing word with
  | nil => simp [run]
  | cons piece pieces ih =>
      rw [List.flatMap_cons, run_append, run_piece, ih, List.append_assoc]
      rfl

theorem run_spelling (spelling : Spelling) :
    (between found).run spelling.text = within found spelling.word :=
  run_pieces found [] spelling.pieces

-- The first blank behind a word ends it.
theorem run_gap {gap : List Char} (hblank : ∀ c ∈ gap, Text.isBlank c = true) (hne : gap ≠ []) :
    (within found word).run gap = (within found word).endWord := by
  obtain ⟨c, gap, rfl⟩ := List.exists_cons_of_ne_nil hne
  rw [run_cons, step_blank _ rfl rfl (hblank c (by simp))]
  exact run_blanks _ _ fun d hd => hblank d (by simp [hd])

theorem endWord_spelling (spelling : Spelling) :
    (within found spelling.word).endWord = between (found ++ [spelling.word]) :=
  congrArg between (if_neg spelling.word_ne)

theorem run_entry (spelling : Spelling) {gap : List Char}
    (hblank : ∀ c ∈ gap, Text.isBlank c = true) (hne : gap ≠ []) :
    (between found).run (spelling.text ++ gap) = between (found ++ [spelling.word]) := by
  rw [run_append, run_spelling, run_gap _ _ hblank hne, endWord_spelling]

theorem words_last (spelling : Spelling) {gap : List Char}
    (hblank : ∀ c ∈ gap, Text.isBlank c = true) :
    (between found).words (spelling.text ++ gap) = found ++ [spelling.word] := by
  by_cases hne : gap = []
  · rw [hne, List.append_nil, words, run_spelling, endWord_spelling]
    rfl
  · rw [words, run_entry found spelling hblank hne]
    rfl

theorem words_entries (entries : List (Spelling × List Char))
    (hblank : ∀ entry ∈ entries, ∀ c ∈ entry.2, Text.isBlank c = true)
    (hapart : ∀ entry ∈ entries.dropLast, entry.2 ≠ []) :
    (between found).words (entries.flatMap fun entry => entry.1.text ++ entry.2) =
      found ++ entries.map fun entry => entry.1.word := by
  induction entries generalizing found with
  | nil =>
      rw [List.flatMap_nil, List.map_nil, List.append_nil]
      rfl
  | cons entry entries ih =>
      have hgap := hblank entry List.mem_cons_self
      cases entries with
      | nil =>
          rw [List.flatMap_cons, List.flatMap_nil, List.append_nil]
          exact words_last found entry.1 hgap
      | cons next entries =>
          have hne : entry.2 ≠ [] := hapart entry List.mem_cons_self
          rw [List.flatMap_cons, words, run_append, run_entry found entry.1 hgap hne, ← words, ih,
            List.append_assoc]
          · rfl
          · exact fun e he => hblank e (List.mem_cons_of_mem _ he)
          · exact fun e he => hapart e (List.mem_cons_of_mem _ he)

end Scan

-- However words are written and whatever blanks are put between them, they are read back.
theorem words_layout (l : Layout) : words (String.ofList l.text) = l.words.map String.ofList := by
  have hscan : (Scan.between []).words l.text = l.words := by
    rw [Layout.text, Scan.words, Scan.run_append, Scan.run_blanks _ _ l.lead_blank, ← Scan.words,
      Scan.words_entries [] l.entries l.gaps_blank l.apart]
    rfl
  rw [words, String.toList_ofList, ← hscan, Scan.words_between]
  rfl

-- A word in every style, with a pair of quotation marks around nothing, and a word of nothing but a
-- blank, a quotation mark and a backslash.
def Layout.motley : Layout where
  lead := ['\t']
  entries :=
    [ (⟨[.bare 'a' (by decide), .escaped ' ', .quoted .single ['"', 'b'] (by simp [Mark.char]),
          .quoted .double [] (by simp)], by simp [Piece.meaning]⟩, [' ', '\n']),
      (⟨[.quoted .double [' ', '\''] (by simp [Mark.char]), .quoted .single [] (by simp),
          .escaped '\\'], by simp [Piece.meaning]⟩, []) ]
  lead_blank := by simp [Text.isBlank]
  gaps_blank := by simp [Text.isBlank]
  apart := by simp

theorem words_layout_motley :
    String.ofList Layout.motley.text = "\ta\\ '\"b'\"\" \n\" '\"''\\\\" ∧
      words (String.ofList Layout.motley.text) = ["a \"b", " '\\"] :=
  ⟨by decide, words_layout Layout.motley⟩

end DesktopShell.CommandLine

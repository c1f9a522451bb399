import DesktopShell.CommandLine.Flags
import DesktopShell.Proofs.CommandLine.Scan
import Mathlib.Data.List.Induction

namespace DesktopShell

namespace Text

variable {sep : Char}

theorem splitFirst?_append {before : List Char} (h : sep ∉ before) (after : List Char) :
    splitFirst? sep (before ++ sep :: after) = some (before, after) := by
  induction before with
  | nil => exact if_pos rfl
  | cons c before ih =>
      rw [List.mem_cons, not_or] at h
      rw [List.cons_append, splitFirst?, if_neg (Ne.symm h.1), ih h.2]
      rfl

theorem splitFirst?_of_not_mem {cs : List Char} (h : sep ∉ cs) : splitFirst? sep cs = none := by
  induction cs with
  | nil => rfl
  | cons c cs ih =>
      rw [List.mem_cons, not_or] at h
      rw [splitFirst?, if_neg (Ne.symm h.1), ih h.2]
      rfl

end Text

namespace Table

variable {α : Type} {key : String}

-- Values given to names one after the other.
def setAll (t : Table α) (pairs : List (String × α)) : Table α :=
  pairs.foldl (fun t p => t.set p.1 p.2) t

theorem setAll_append (t : Table α) (pairs more : List (String × α)) :
    t.setAll (pairs ++ more) = (t.setAll pairs).setAll more := List.foldl_append

theorem get?_setAll_of_not_mem (t : Table α) {pairs : List (String × α)}
    (h : ∀ value, (key, value) ∉ pairs) : (t.setAll pairs).get? key = t.get? key := by
  induction pairs using List.reverseRecOn with
  | nil => rfl
  | append_singleton pairs p ih =>
      have hp : key ≠ p.1 := by
        rintro rfl
        exact h p.2 (by simp)
      rw [setAll_append]
      refine (get?_set (t.setAll pairs) p.1 key p.2).trans ?_
      rw [if_neg hp, ih fun value hmem => h value (List.mem_append_left _ hmem)]

theorem get?_setAll_of_mem (t : Table α) {pairs : List (String × α)} {value : α}
    (h : (key, value) ∈ pairs) (hunique : ∀ other, (key, other) ∈ pairs → other = value) :
    (t.setAll pairs).get? key = some value := by
  induction pairs using List.reverseRecOn with
  | nil => cases h
  | append_singleton pairs p ih =>
      rw [setAll_append]
      refine (get?_set (t.setAll pairs) p.1 key p.2).trans ?_
      by_cases hp : key = p.1
      · rw [if_pos hp, hunique p.2 (by simp [hp])]
      · have hmem : (key, value) ∈ pairs := by
          rcases List.mem_append.mp h with hmem | hmem
          · exact hmem
          · exact absurd (congrArg Prod.fst (List.mem_singleton.mp hmem)) hp
        rw [if_neg hp, ih hmem fun other hother => hunique other (List.mem_append_left _ hother)]

end Table

namespace CommandLine

-- A word that is not about flags: no dash is in front, or there is nothing but one dash or two.
def IsArgument (word : String) : Prop :=
  word.toList.head? ≠ some '-' ∨ word = "-" ∨ word = "--"

instance (word : String) : Decidable (IsArgument word) :=
  inferInstanceAs (Decidable (_ ∨ _ ∨ _))

-- A word gives a flag a value.
inductive Sets : String → String → FlagValue → Prop
  | plain {name : String} (hne : name ≠ "") (hname : '=' ∉ name.toList) :
      Sets ("--" ++ name) name .on
  | valued {name : String} (hname : '=' ∉ name.toList) (value : String) :
      Sets ("--" ++ name ++ "=" ++ value) name (if value = "true" then .on else .text value)
  | short {letters : List Char} (hshort : letters.head? ≠ some '-') {c : Char} (hc : c ∈ letters) :
      Sets (String.ofList ('-' :: letters)) (String.ofList (Text.lowerChar c)) .on

-- Of the words that are about a flag the last one gives it this value.
def LastSets (words : List String) (key : String) (value : FlagValue) : Prop :=
  ∃ before word after, words = before ++ word :: after ∧ Sets word key value ∧
    ∀ later ∈ after, ∀ other, ¬Sets later key other

-- The ways to write a word, and what it is taken apart into.
inductive Form : String → Part → Prop
  | argument {word : String} (hword : IsArgument word) : Form word (.argument word)
  | plain {name : String} (hne : name ≠ "") (hname : '=' ∉ name.toList) :
      Form ("--" ++ name) (.settings [(name, .on)])
  | valued {name : String} (hname : '=' ∉ name.toList) (value : String) :
      Form ("--" ++ name ++ "=" ++ value)
        (.settings [(name, if value = "true" then .on else .text value)])
  | short {c : Char} (hc : c ≠ '-') (cs : List Char) :
      Form (String.ofList ('-' :: c :: cs))
        (.settings ((c :: cs).map fun x => (String.ofList (Text.lowerChar x), .on)))

section Word

variable {word key : String}

theorem ofWord_argument (h : IsArgument word) : Part.ofWord word = .argument word := by
  rcases h with hdash | rfl | rfl
  · unfold Part.ofWord
    split
    · next hw => simp [hw] at hdash
    · next hw => simp [hw] at hdash
    · next hw => simp [hw] at hdash
    · rfl
  · rfl
  · rfl

theorem ofWord_long {long : List Char} (hword : word.toList = '-' :: '-' :: long) (hne : long ≠ []) :
    Part.ofWord word =
      .settings [(Text.splitFirst? '=' long).elim (String.ofList long, .on) fun p =>
        (String.ofList p.1, if String.ofList p.2 = "true" then .on else .text (String.ofList p.2))] := by
  obtain ⟨c, cs, rfl⟩ := List.exists_cons_of_ne_nil hne
  simp only [Part.ofWord, hword]
  cases Text.splitFirst? '=' (c :: cs) with
  | none => rfl
  | some p => rfl

theorem ofWord_plain {name : String} (hne : name ≠ "") (hname : '=' ∉ name.toList) :
    Part.ofWord ("--" ++ name) = .settings [(name, .on)] := by
  have hword : ("--" ++ name).toList = '-' :: '-' :: name.toList := String.toList_append
  rw [ofWord_long hword (mt String.toList_eq_nil_iff.mp hne), Text.splitFirst?_of_not_mem hname,
    Option.elim_none, String.ofList_toList]

theorem ofWord_valued {name : String} (hname : '=' ∉ name.toList) (value : String) :
    Part.ofWord ("--" ++ name ++ "=" ++ value) =
      .settings [(name, if value = "true" then .on else .text value)] := by
  have hword : ("--" ++ name ++ "=" ++ value).toList =
      '-' :: '-' :: (name.toList ++ '=' :: value.toList) := by
    simp only [String.toList_append, List.append_assoc]
    rfl
  rw [ofWord_long hword (by simp), Text.splitFirst?_append hname, Option.elim_some,
    String.ofList_toList, String.ofList_toList]

theorem ofWord_short {c : Char} (hc : c ≠ '-') (cs : List Char) :
    Part.ofWord (String.ofList ('-' :: c :: cs)) =
      .settings ((c :: cs).map fun x => (String.ofList (Text.lowerChar x), .on)) := by
  simp [Part.ofWord, hc]

theorem form_ofWord (word : String) : Form word (Part.ofWord word) := by
  rw [← String.ofList_toList (s := word)]
  generalize word.toList = letters
  by_cases hdash : letters.head? = some '-'
  · obtain ⟨rest, rfl⟩ := List.head?_eq_some_iff.mp hdash
    cases rest with
    | nil => exact .argument (.inr (.inl rfl))
    | cons c cs =>
        by_cases hc : c = '-'
        · subst hc
          by_cases hequals : '=' ∈ cs
          · obtain ⟨name, value, rfl, hname⟩ := List.eq_append_cons_of_mem hequals
            have hword : String.ofList ('-' :: '-' :: (name ++ '=' :: value)) =
                "--" ++ .ofList name ++ "=" ++ .ofList value := by
              simp [← String.toList_inj]
            rw [← String.toList_ofList (l := name)] at hname
            rw [hword, ofWord_valued hname]
            exact .valued hname _
          · by_cases hempty : cs = []
            · rw [hempty]
              exact .argument (.inr (.inr rfl))
            · have hword : String.ofList ('-' :: '-' :: cs) = "--" ++ .ofList cs := by
                simp [← String.toList_inj]
              have hne : String.ofList cs ≠ "" := by simpa using hempty
              rw [← String.toList_ofList (l := cs)] at hequals
              rw [hword, ofWord_plain hne hequals]
              exact .plain hne hequals
        · rw [ofWord_short hc]
          exact .short hc cs
  · have hword : IsArgument (.ofList letters) := .inl (by simpa using hdash)
    rw [ofWord_argument hword]
    exact .argument hword

-- What a word does to flags is what it is taken apart into.
theorem mem_flags_ofWord_iff {value : FlagValue} :
    (key, value) ∈ (Part.ofWord word).flags ↔ Sets word key value := by
  constructor
  · intro h
    have hform := form_ofWord word
    generalize Part.ofWord word = part at h hform
    cases hform with
    | argument hword => cases h
    | plain hne hname =>
        obtain ⟨rfl, rfl⟩ := Prod.mk.inj (List.mem_singleton.mp h)
        exact .plain hne hname
    | valued hname text =>
        obtain ⟨rfl, rfl⟩ := Prod.mk.inj (List.mem_singleton.mp h)
        exact .valued hname text
    | short hc cs =>
        obtain ⟨x, hx, hpair⟩ := List.mem_map.mp h
        obtain ⟨rfl, rfl⟩ := Prod.mk.inj hpair
        exact .short (by simpa using hc) hx
  · intro h
    cases h with
    | plain hne hname =>
        rw [ofWord_plain hne hname]
        exact List.mem_singleton_self _
    | valued hname text =>
        rw [ofWord_valued hname]
        exact List.mem_singleton_self _
    | @short letters hshort c hc =>
        obtain ⟨x, cs, rfl⟩ := List.exists_cons_of_ne_nil (List.ne_nil_of_mem hc)
        rw [ofWord_short (by simpa using hshort)]
        exact List.mem_map_of_mem hc

-- A word never gives one flag two values.
theorem Sets.unique {value other : FlagValue} (h : Sets word key value) (hother : Sets word key other) :
    other = value := by
  rw [← mem_flags_ofWord_iff] at h hother
  have hform := form_ofWord word
  generalize Part.ofWord word = part at h hother hform
  cases hform with
  | argument hword => cases h
  | plain hne hname =>
      rw [(Prod.mk.inj (List.mem_singleton.mp h)).2, (Prod.mk.inj (List.mem_singleton.mp hother)).2]
  | valued hname text =>
      rw [(Prod.mk.inj (List.mem_singleton.mp h)).2, (Prod.mk.inj (List.mem_singleton.mp hother)).2]
  | short hc cs =>
      obtain ⟨x, -, hx⟩ := List.mem_map.mp h
      obtain ⟨y, -, hy⟩ := List.mem_map.mp hother
      rw [← (Prod.mk.inj hx).2, ← (Prod.mk.inj hy).2]

-- A word is an argument or it sets a flag, and never both.
theorem isArgument_iff_sets_nothing : IsArgument word ↔ ∀ key value, ¬Sets word key value := by
  constructor
  · intro hword key value h
    rw [← mem_flags_ofWord_iff, ofWord_argument hword] at h
    cases h
  · intro hnone
    have hform := form_ofWord word
    generalize Part.ofWord word = part at hform
    cases hform with
    | argument hword => exact hword
    | plain hne hname => exact absurd (.plain hne hname) (hnone _ .on)
    | valued hname text => exact absurd (.valued hname text) (hnone _ _)
    | short hc cs => exact absurd (.short (by simpa using hc) List.mem_cons_self) (hnone _ .on)

theorem argument?_ofWord (word : String) :
    (Part.ofWord word).argument? = if IsArgument word then some word else none := by
  by_cases hword : IsArgument word
  · rw [ofWord_argument hword, if_pos hword]
    rfl
  · rw [if_neg hword]
    have hform := form_ofWord word
    generalize Part.ofWord word = part at hform
    cases hform with
    | argument h => exact absurd h hword
    | plain => rfl
    | valued => rfl
    | short => rfl

end Word

section Words

variable {words : List String} {word key : String} {value : FlagValue}

theorem lastSets_concat_iff :
    LastSets (words ++ [word]) key value ↔
      Sets word key value ∨ (∀ other, ¬Sets word key other) ∧ LastSets words key value := by
  constructor
  · rintro ⟨before, last, after, hwords, hlast, hafter⟩
    rcases List.eq_nil_or_concat after with rfl | ⟨after, later, rfl⟩
    · obtain ⟨-, rfl⟩ := List.append_singleton_inj.mp hwords
      exact .inl hlast
    · rw [List.concat_eq_append, ← List.cons_append, ← List.append_assoc] at hwords
      obtain ⟨rfl, rfl⟩ := List.append_singleton_inj.mp hwords
      exact .inr ⟨hafter word (by simp), before, last, after, rfl, hlast,
        fun w hw => hafter w (by simp [hw])⟩
  · rintro (hword | ⟨hnone, before, last, after, rfl, hlast, hafter⟩)
    · exact ⟨words, word, [], rfl, hword, fun _ hlater => by cases hlater⟩
    · refine ⟨before, last, after ++ [word], by simp, hlast, fun later hlater => ?_⟩
      rcases List.mem_append.mp hlater with hlater | hlater
      · exact hafter later hlater
      · rw [List.mem_singleton.mp hlater]
        exact hnone

theorem exists_lastSets_iff :
    (∃ value, LastSets words key value) ↔ ∃ word ∈ words, ∃ value, Sets word key value := by
  constructor
  · rintro ⟨value, before, word, after, rfl, hword, -⟩
    exact ⟨word, by simp, value, hword⟩
  · intro h
    induction words using List.reverseRecOn with
    | nil => simp at h
    | append_singleton words word ih =>
        by_cases hword : ∃ value, Sets word key value
        · obtain ⟨value, hvalue⟩ := hword
          exact ⟨value, lastSets_concat_iff.mpr (.inl hvalue)⟩
        · have hnone : ∀ value, ¬Sets word key value := not_exists.mp hword
          obtain ⟨w, hw, value, hvalue⟩ := h
          rcases List.mem_append.mp hw with hw | hw
          · obtain ⟨value, hlast⟩ := ih ⟨w, hw, value, hvalue⟩
            exact ⟨value, lastSets_concat_iff.mpr (.inr ⟨hnone, hlast⟩)⟩
          · rw [List.mem_singleton.mp hw] at hvalue
            exact absurd hvalue (hnone value)

-- The flags that words set one after the other.
def flagsOf (words : List String) : Table FlagValue :=
  Table.empty.setAll (words.flatMap fun word => (Part.ofWord word).flags)

theorem flagsOf_concat (words : List String) (word : String) :
    flagsOf (words ++ [word]) = (flagsOf words).setAll (Part.ofWord word).flags := by
  rw [flagsOf, List.flatMap_append, Table.setAll_append, List.flatMap_singleton]
  rfl

theorem get?_flagsOf_iff : (flagsOf words).get? key = some value ↔ LastSets words key value := by
  induction words using List.reverseRecOn generalizing value with
  | nil =>
      refine iff_of_false (by simp [flagsOf, Table.setAll, Table.get?_empty]) ?_
      rintro ⟨before, word, after, hwords, -⟩
      simp at hwords
  | append_singleton words word ih =>
      rw [flagsOf_concat]
      by_cases hword : ∃ value, Sets word key value
      · obtain ⟨set, hset⟩ := hword
        have hget := Table.get?_setAll_of_mem (flagsOf words) (mem_flags_ofWord_iff.mpr hset)
          fun other hother => hset.unique (mem_flags_ofWord_iff.mp hother)
        rw [hget, Option.some_inj, lastSets_concat_iff]
        constructor
        · rintro rfl
          exact .inl hset
        · rintro (hvalue | ⟨hnone, -⟩)
          · exact hvalue.unique hset
          · exact absurd hset (hnone set)
      · have hnone : ∀ value, ¬Sets word key value := not_exists.mp hword
        have hget : ((flagsOf words).setAll (Part.ofWord word).flags).get? key =
            (flagsOf words).get? key :=
          Table.get?_setAll_of_not_mem _ fun value => mt mem_flags_ofWord_iff.mp (hnone value)
        rw [hget, ih, lastSets_concat_iff]
        exact ⟨fun hlast => .inr ⟨hnone, hlast⟩,
          fun hlast => (hlast.resolve_left (hnone value)).2⟩

end Words

theorem filterMap_argument? (words : List String) :
    (words.map Part.ofWord).filterMap Part.argument? = words.filter (IsArgument ·) := by
  have hguard : (fun word => (Part.ofWord word).argument?) = Option.guard (IsArgument ·) := by
    funext word
    rw [argument?_ofWord, Option.guard]
    simp
  rw [List.filterMap_map, ← List.filterMap_eq_filter, ← hguard]
  rfl

theorem flags_parse (line : String) : (parse line).flags = flagsOf (words line).tail := by
  unfold parse
  split
  · next hwords =>
      rw [hwords]
      rfl
  · next first rest hwords =>
      rw [hwords, List.tail_cons, flagsOf, ← List.flatMap_map Part.ofWord]
      rfl

theorem args_parse (line : String) :
    (parse line).args = (words line).tail.filter (IsArgument ·) := by
  unfold parse
  split
  · next hwords =>
      rw [hwords]
      rfl
  · next first rest hwords =>
      rw [hwords, List.tail_cons, ← filterMap_argument?]

-- The words behind the first one are sorted into arguments and words about flags. Arguments are kept
-- as they are, in their order, and a flag has the value that it was given last.
theorem parse_partition (line : String) :
    (∀ word, IsArgument word ↔ ∀ key value, ¬Sets word key value) ∧
      (parse line).args = (words line).tail.filter (IsArgument ·) ∧
      (∀ key, (parse line).flags.has key = true ↔
        ∃ word ∈ (words line).tail, ∃ value, Sets word key value) ∧
      ∀ key value, (parse line).flags.get? key = some value ↔
        LastSets (words line).tail key value := by
  rw [flags_parse]
  refine ⟨fun _ => isArgument_iff_sets_nothing, args_parse line, fun key => ?_,
    fun key value => get?_flagsOf_iff⟩
  rw [Table.has, Option.isSome_iff_exists, ← exists_lastSets_iff]
  exact exists_congr fun value => get?_flagsOf_iff

-- One flag is given a text and is then switched on by a capital letter, another one is switched on and
-- then given a text that holds a sign of equality. The word of three dashes and a letter is about a
-- flag too.
theorem parse_partition_dashes :
    let line := "ls --l=no -aL - --a=b=true -- ---l"
    (words line).tail = ["--l=no", "-aL", "-", "--a=b=true", "--", "---l"] ∧
      (parse line).args = ["-", "--"] ∧ (parse line).flags.has "-l" = true ∧
      (parse line).flags.get? "l" = some .on ∧
      (parse line).flags.get? "a" = some (.text "b=true") := by
  intro line
  have hwords : words line = ["ls", "--l=no", "-aL", "-", "--a=b=true", "--", "---l"] := by
    rw [words, ← List.nil_append (wordsFrom _), ← Scan.words_between]
    decide
  obtain ⟨-, hargs, hhas, hget⟩ := parse_partition line
  rw [hwords] at hargs hhas hget ⊢
  refine ⟨rfl, hargs.trans (by decide), (hhas "-l").mpr ?_, (hget "l" .on).mpr ?_,
    (hget "a" (.text "b=true")).mpr ?_⟩
  · have hplain : Sets "---l" "-l" .on := mem_flags_ofWord_iff.mp (by decide)
    exact ⟨"---l", by decide, .on, hplain⟩
  · have hnone : ∀ later ∈ ["-", "--a=b=true", "--", "---l"],
        ∀ p ∈ (Part.ofWord later).flags, p.1 ≠ "l" := by decide
    have hshort : Sets "-aL" "l" .on := mem_flags_ofWord_iff.mp (by decide)
    exact ⟨["--l=no"], "-aL", _, rfl, hshort, fun later hlater other h =>
      hnone later hlater _ (mem_flags_ofWord_iff.mpr h) rfl⟩
  · have hnone : ∀ later ∈ ["--", "---l"], ∀ p ∈ (Part.ofWord later).flags, p.1 ≠ "a" := by decide
    have hvalued : Sets "--a=b=true" "a" (.text "b=true") := mem_flags_ofWord_iff.mp (by decide)
    exact ⟨["--l=no", "-aL", "-"], "--a=b=true", _, rfl, hvalued, fun later hlater other h =>
      hnone later hlater _ (mem_flags_ofWord_iff.mpr h) rfl⟩

end CommandLine

end DesktopShell

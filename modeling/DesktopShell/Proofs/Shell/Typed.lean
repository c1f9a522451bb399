import DesktopShell.Proofs.CommandLine.Partition
import DesktopShell.Proofs.CommandLine.Scan
import DesktopShell.Proofs.Shell.Mainframe
import DesktopShell.Proofs.Text.Case

-- Which command a line calls, and whether it is the one that is found by the word as it was typed.
namespace DesktopShell

namespace CommandLine

variable {line word : String} {rest : List String}

theorem parse_of_words (h : words line = word :: rest) :
    (parse line).name = Text.lowercase word ∧ (parse line).tokens = word :: rest ∧
      (parse line).isEmpty = false := by
  unfold parse
  rw [h]
  exact ⟨rfl, rfl, rfl⟩

theorem words_of_scan {found : List (List Char)} (h : (Scan.between []).words line.toList = found) :
    words line = found.map String.ofList := by
  rw [words, ← h, Scan.words_between]
  rfl

theorem words_help (line : String) : words ("help " ++ line) = "help" :: words line := by
  have hhelp : (Scan.between []).run "help ".toList = .between ["help".toList] := rfl
  have hscan : (Scan.between []).words ("help " ++ line).toList =
      "help".toList :: wordsFrom line.toList := by
    rw [String.toList_append, Scan.words, Scan.run_append, hhelp, ← Scan.words, Scan.words_between]
    rfl
  rw [words_of_scan hscan, List.map_cons, String.ofList_toList]
  rfl

end CommandLine

namespace Registry

theorem find?_catalog (registry : Registry) (word : String) :
    registry.catalog.find? word = (registry.find? word).map Command.manual :=
  List.find?_map

-- All names are in ASCII.
def InAscii (registry : Registry) : Prop :=
  ∀ command ∈ registry, ∀ name ∈ names command, ∀ c ∈ name.toList, Text.isAscii c = true

theorem InAscii.find?_lowercase {registry : Registry} (h : registry.InAscii) (word : String) :
    registry.find? (Text.lowercase word) = registry.find? (Text.thaw word) := by
  have hanswers : ∀ command ∈ registry, command.manual.answersTo (Text.lowercase word) =
      command.manual.answersTo (Text.thaw word) := by
    intro command hcommand
    have hsame (name : String) (hname : name ∈ names command) :=
      Text.same_lowercase_eq_thaw (h command hcommand name hname) word
    have haliases :
        command.manual.aliases.any (Text.sameIgnoringAsciiCase · (Text.lowercase word)) =
          command.manual.aliases.any (Text.sameIgnoringAsciiCase · (Text.thaw word)) := by
      rw [Bool.eq_iff_iff, List.any_eq_true, List.any_eq_true]
      refine exists_congr fun name => and_congr_right fun hname => ?_
      rw [hsame name (List.mem_cons_of_mem _ hname)]
    simp only [Manual.answersTo, hsame _ List.mem_cons_self, haliases]
  unfold find?
  induction registry with
  | nil => rw [List.find?_nil, List.find?_nil]
  | cons first others ih =>
      obtain ⟨hfirst, hothers⟩ := List.forall_mem_cons.mp hanswers
      rw [List.find?_cons, List.find?_cons, hfirst,
        ih (fun command hcommand => h command (List.mem_cons_of_mem _ hcommand)) hothers]

-- The first command that answers to a name, if there is one that has it.
theorem exists_first_of_mem {registry : Registry} {command : Command} {name : String}
    (hcommand : command ∈ registry) (hname : name ∈ names command) :
    ∃ before first after, registry = before ++ first :: after ∧
      (∀ other ∈ before, other.manual.answersTo name = false) ∧
      first.manual.answersTo name = true ∧ registry.find? name = some first := by
  have hsome : registry.find? name ≠ none := fun hnone =>
    List.find?_eq_none.mp hnone command hcommand (Manual.answersTo_of_mem hname)
  obtain ⟨first, hfirst⟩ := Option.ne_none_iff_exists'.mp hsome
  obtain ⟨hanswers, before, after, hsplit, hnone⟩ := List.find?_eq_some_iff_append.mp hfirst
  exact ⟨before, first, after, hsplit, by simpa using hnone, hanswers, hfirst⟩

-- One command of this name, which has nothing to say.
def lone (name : String) : Registry :=
  [ { manual :=
        { name, aliases := [], category := .system, usage := name, description := ""
          hidden := false }
      handler := fun _ scene => scene.done .nothing } ]

theorem find?_lone (name word : String) :
    (lone name).find? word = if Text.sameIgnoringAsciiCase name word then (lone name).head? else none := by
  simp only [lone, find?, Manual.answersTo, List.find?_cons, List.any_nil, Bool.or_false,
    List.find?_nil, List.head?_cons]
  cases Text.sameIgnoringAsciiCase name word <;> rfl

end Registry

namespace Scene

-- What a line comes to when its first word stands for the command found, or for none.
def answer (s : Scene) (registry : Registry) (clock : Clock) (line word : String) :
    Option Command → Scene × Except Failure Outcome
  | none => (s, .error (.unknownCommand word))
  | some command => s.call command ⟨CommandLine.parse line, registry.catalog, clock⟩

variable {line word : String} {rest : List String}

-- The word is looked up in lower case.
theorem execute_eq_answer (s : Scene) (registry : Registry) (clock : Clock)
    (hwords : CommandLine.words line = word :: rest) :
    s.execute registry clock line =
      s.answer registry clock line word (registry.find? (Text.lowercase word)) := by
  obtain ⟨hname, htokens, hempty⟩ := CommandLine.parse_of_words hwords
  unfold execute
  simp only [hempty, hname, htokens, Bool.false_eq_true, if_false]
  cases registry.find? (Text.lowercase word) <;> rfl

theorem call_help {command : Command} (hhelp : command.handler = Inform.help) (s : Scene)
    {call : Call} (hword : call.line.firstArg? = some word) {registry : Registry}
    (hcatalog : call.catalog = registry.catalog) :
    s.call command call =
      (s, match registry.find? word with
        | some command => .ok (.ofLines (Inform.describe command.manual))
        | none => .error (.unknownCommand word)) := by
  unfold Scene.call
  simp only [hhelp, Inform.help, hword, hcatalog, Registry.find?_catalog]
  cases registry.find? word <;> rfl

-- A line calls the command that its first word stands for as it was typed, in every registry, exactly
-- when lower-casing the word does no more than change letters of ASCII. Where all names are in ASCII
-- nothing but a Kelvin sign can make a difference, which is taken for a letter. `help` looks words up
-- as they were typed. A name that lower-casing does not change beyond ASCII can be typed in any mix of
-- cases and calls the first command that answers to it.
theorem execute_typed (hwords : CommandLine.words line = word :: rest) :
    ((∀ (registry : Registry) (s : Scene) (clock : Clock),
        s.execute registry clock line =
          s.answer registry clock line word (registry.find? word)) ↔
      ∀ c ∈ word.toList, Text.IsSteady c) ∧
    (∀ registry : Registry, registry.InAscii → ∀ (s : Scene) (clock : Clock),
      s.execute registry clock line =
        s.answer registry clock line word (registry.find? (Text.thaw word))) ∧
    (∀ (registry : Registry) (helper : Command), registry.find? "help" = some helper →
      helper.handler = Inform.help → CommandLine.IsArgument word → ∀ (s : Scene) (clock : Clock),
        s.execute registry clock ("help " ++ line) =
          (s, match registry.find? word with
            | some command => .ok (.ofLines (Inform.describe command.manual))
            | none => .error (.unknownCommand word))) ∧
    ∀ (registry : Registry), ∀ command ∈ registry, ∀ name ∈ Registry.names command,
      (∀ c ∈ name.toList, Text.IsSteady c) → Text.sameIgnoringAsciiCase word name = true →
        ∃ before first after, registry = before ++ first :: after ∧
          (∀ other ∈ before, other.manual.answersTo name = false) ∧
          first.manual.answersTo name = true ∧ ∀ (s : Scene) (clock : Clock),
            s.execute registry clock line =
              s.call first ⟨CommandLine.parse line, registry.catalog, clock⟩ := by
  have hexecute (registry : Registry) (s : Scene) (clock : Clock) :=
    s.execute_eq_answer registry clock hwords
  refine ⟨⟨fun hall => ?_, fun hsteady registry s clock => ?_⟩, fun registry hascii s clock => ?_,
    fun registry helper hfind hhelp hargument s clock => ?_,
    fun registry command hcommand name hname hsteady hsame => ?_⟩
  · -- A command of just this name is found as typed, so it has to be found in lower case too.
    rw [← Text.same_lowercase_iff]
    by_contra hother
    have hself : Text.sameIgnoringAsciiCase word word = true := Text.sameIgnoringAsciiCase_iff.mpr rfl
    have hflipped : Text.sameIgnoringAsciiCase word (Text.lowercase word) ≠ true := fun h =>
      hother (Text.sameIgnoringAsciiCase_iff.mpr (Text.sameIgnoringAsciiCase_iff.mp h).symm)
    have hcalled := hall (.lone word) guest ⟨.epoch, .epoch⟩
    rw [hexecute, Registry.find?_lone, Registry.find?_lone, if_pos hself, if_neg hflipped] at hcalled
    cases congrArg Prod.snd hcalled
  · rw [hexecute, Registry.find?_congr (Text.same_lowercase_iff.mpr hsteady)]
  · rw [hexecute, hascii.find?_lowercase]
  · have hline : CommandLine.words ("help " ++ line) = "help" :: word :: rest := by
      rw [CommandLine.words_help, hwords]
    have hlower : Text.lowercase "help" = "help" := by decide
    have hfirst : (CommandLine.parse ("help " ++ line)).firstArg? = some word := by
      have hkept : decide (CommandLine.IsArgument word) = true := decide_eq_true hargument
      rw [CommandLine.firstArg?, CommandLine.args_parse, hline, List.tail_cons, List.filter_cons,
        if_pos hkept, List.head?_cons]
    rw [s.execute_eq_answer registry clock hline, hlower, hfind]
    exact call_help hhelp s hfirst rfl
  · obtain ⟨before, first, after, hsplit, hbefore, hfirst, hfind⟩ :=
      Registry.exists_first_of_mem hcommand hname
    refine ⟨before, first, after, hsplit, hbefore, hfirst, fun s clock => ?_⟩
    have hword := Text.isSteady_of_same hsame hsteady
    rw [hexecute, Registry.find?_congr (Text.same_lowercase_iff.mpr hword),
      Registry.find?_congr hsame, hfind]
    rfl

-- A name in mixed case, with something behind it.
theorem execute_typed_mixed :
    let line := "DiR /C:"
    CommandLine.words line = ["DiR", "/C:"] ∧
      ∀ (s : Scene) (clock : Clock),
        s.execute Registry.builtin clock line =
          s.call Registry.list ⟨CommandLine.parse line, Registry.builtin.catalog, clock⟩ := by
  intro line
  have hwords : CommandLine.words line = ["DiR", "/C:"] := by
    rw [CommandLine.words_of_scan rfl]
    decide
  have hascii : "DiR".toList.all Text.isAscii = true := by decide
  have hsteady : ∀ c ∈ "DiR".toList, Text.IsSteady c := fun c hc =>
    .inl (List.all_eq_true.mp hascii c hc)
  refine ⟨hwords, fun s clock => ?_⟩
  have hmember : Registry.list ∈ Registry.builtin := by simp [Registry.builtin]
  have hfind : Registry.builtin.find? "DiR" = some Registry.list := by
    rw [Registry.find?_congr (b := "dir") (by decide)]
    exact Registry.apart_builtin.find? hmember (by decide)
  rw [(execute_typed hwords).1.mpr hsteady, hfind]
  rfl

-- A Kelvin sign, which is no letter of `hack`, calls `hack`, and a name with a capital letter beyond
-- ASCII calls nothing.
theorem not_execute_typed_foreign :
    (CommandLine.words "hac\u212A" = ["hac\u212A"] ∧
      Registry.builtin.find? "hac\u212A" = none ∧
      ∀ (s : Scene) (clock : Clock),
        s.execute Registry.builtin clock "hac\u212A" =
          s.call Registry.hack
            ⟨CommandLine.parse "hac\u212A", Registry.builtin.catalog, clock⟩) ∧
    (CommandLine.words "É" = ["É"] ∧
      (∃ command ∈ Registry.lone "É", (Registry.lone "É").find? "É" = some command) ∧
      ∀ (s : Scene) (clock : Clock),
        s.execute (Registry.lone "É") clock "É" = (s, .error (.unknownCommand "É"))) := by
  have hkelvin : CommandLine.words "hac\u212A" = ["hac\u212A"] := by
    rw [CommandLine.words_of_scan rfl]
    decide
  have hacute : CommandLine.words "É" = ["É"] := by
    rw [CommandLine.words_of_scan rfl]
    decide
  refine ⟨⟨hkelvin, Option.isNone_iff_eq_none.mp (by decide +kernel), fun s clock => ?_⟩,
    hacute, ⟨_, List.mem_cons_self, ?_⟩, fun s clock => ?_⟩
  · have hmember : Registry.hack ∈ Registry.builtin := by simp [Registry.builtin]
    have hlower : Text.lowercase "hac\u212A" = "hack" := by decide +kernel
    rw [s.execute_eq_answer _ clock hkelvin, hlower,
      Registry.apart_builtin.find? hmember (by decide)]
    rfl
  · rw [Registry.find?_lone, if_pos (by decide)]
    rfl
  · have hlower : Text.lowercase "É" = "é" := by decide +kernel
    rw [s.execute_eq_answer _ clock hacute, hlower, Registry.find?_lone, if_neg (by decide)]
    rfl

end Scene

end DesktopShell

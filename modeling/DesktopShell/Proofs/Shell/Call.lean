import DesktopShell.Shell.Builtin
import DesktopShell.Shell.Submit

namespace DesktopShell

theorem Manual.answersTo_of_mem {m : Manual} {name : String} (h : name ∈ m.name :: m.aliases) :
    m.answersTo name = true := by
  have hsame : Text.sameIgnoringAsciiCase name name = true := by simp [Text.sameIgnoringAsciiCase]
  unfold Manual.answersTo
  rw [Bool.or_eq_true, List.any_eq_true]
  rcases List.mem_cons.mp h with rfl | halias
  · exact .inl hsame
  · exact .inr ⟨name, halias, hsame⟩

namespace Registry

-- The words that a command answers to.
def names (command : Command) : List String :=
  command.manual.name :: command.manual.aliases

-- No command answers to a name of one that comes behind it.
def Apart (registry : Registry) : Prop :=
  List.Pairwise (fun a b => ∀ name ∈ names b, a.manual.answersTo name = false) registry

theorem Apart.find? {registry : Registry} (h : registry.Apart) {command : Command}
    (hcommand : command ∈ registry) {name : String} (hname : name ∈ names command) :
    registry.find? name = some command := by
  unfold Registry.find?
  induction h with
  | nil => cases hcommand
  | cons hfirst _ ih =>
      rcases List.mem_cons.mp hcommand with rfl | hcommand
      · exact List.find?_cons_of_pos (Manual.answersTo_of_mem hname)
      · have hother := hfirst command hcommand name hname
        rw [List.find?_cons_of_neg (by simp [hother])]
        exact ih hcommand

theorem apart_builtin : builtin.Apart := by
  unfold Apart
  decide +kernel

end Registry

namespace Scene

variable (s : Scene) {line : String} {command : Command}

-- A line whose first word is answered calls the command that answers. A blank line has no word, and
-- no command is called by none.
theorem execute_of_find?
    (hfind : Registry.builtin.find? (CommandLine.parse line).name = some command) (clock : Clock) :
    s.execute Registry.builtin clock line =
      s.call command ⟨CommandLine.parse line, Registry.builtin.catalog, clock⟩ := by
  have hempty : (CommandLine.parse line).isEmpty = false := by
    unfold CommandLine.parse at hfind ⊢
    split
    · next hwords =>
        rw [hwords] at hfind
        cases hfind
    · rfl
  unfold execute
  simp only [hempty, Bool.false_eq_true, if_false, hfind]

theorem execute_of_name (hcommand : command ∈ Registry.builtin)
    (hname : (CommandLine.parse line).name ∈ Registry.names command) (clock : Clock) :
    s.execute Registry.builtin clock line =
      s.call command ⟨CommandLine.parse line, Registry.builtin.catalog, clock⟩ :=
  s.execute_of_find? (Registry.apart_builtin.find? hcommand hname) clock

end Scene

end DesktopShell

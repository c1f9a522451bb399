import DesktopShell.Cli.Options
import DesktopShell.Proofs.CommandLine.Partition

namespace DesktopShell.Cli

-- The argument that asks for a line.
def asking (line : String) : String := "--command=" ++ line

def Options.behind (lines : List String) (o : Options) : Options :=
  { o with commands := lines ++ o.commands }

-- What is asked for once these lines have been asked for before.
def Request.behind (lines : List String) : Request → Request
  | .run o => .run (o.behind lines)
  | request => request

theorem ofArgument_asking (line : String) :
    Form.ofArgument (asking line) = .option .command (some line) := by
  have hlist : (asking line).toList = '-' :: '-' :: ("command".toList ++ '=' :: line.toList) := by
    rw [asking, String.toList_append]
    rfl
  have hsplit : Text.splitFirst? '=' ("command".toList ++ '=' :: line.toList) =
      some ("command".toList, line.toList) := Text.splitFirst?_append (by decide) _
  unfold Form.ofArgument
  rw [hlist]
  simp only [String.reduceToList, List.cons_append, List.nil_append] at hsplit ⊢
  rw [hsplit]
  dsimp only
  rw [String.ofList_toList]
  rfl

theorem set?_behind (lines : List String) (o : Options) (which : Parameter) (value : String) :
    (o.behind lines).set? which value = (o.set? which value).map (Options.behind lines) := by
  cases which with
  | config | snapshot =>
      unfold Options.set? Options.behind
      dsimp only
      split <;> rfl
  | command => simp [Options.set?, Options.behind, List.append_assoc]

theorem readArguments_behind (lines : List String) (o : Options) (args : List String) :
    readArguments (o.behind lines) args = (readArguments o args).behind lines := by
  fun_induction readArguments o args with
  | case1 o => rfl
  | case2 o arg rest form | case3 o arg rest form | case4 o arg rest form =>
      rw [readArguments, form]
      rfl
  | case5 o arg form =>
      rw [readArguments, form]
      rfl
  | case6 o arg rest form hrest =>
      rw [readArguments, form]
      exact if_neg hrest
  | case7 o arg rest which value form o' hset ih =>
      rw [readArguments, form]
      dsimp only
      rw [set?_behind, hset]
      exact ih
  | case8 o arg rest which value form hset =>
      rw [readArguments, form]
      dsimp only
      rw [set?_behind, hset]
      rfl
  | case9 o arg which form value rest hvalue o' hset ih =>
      rw [readArguments, form]
      dsimp only
      rw [if_pos hvalue, set?_behind, hset]
      exact ih
  | case10 o arg which form value rest hvalue hset =>
      rw [readArguments, form]
      dsimp only
      rw [if_pos hvalue, set?_behind, hset]
      rfl
  | case11 o arg which form value rest hvalue =>
      rw [readArguments, form]
      exact if_neg hvalue
  | case12 o arg which form =>
      rw [readArguments, form]
      rfl

-- Lines can be asked for before all else, each in one argument.
theorem ofArguments_asking (lines args : List String) :
    Request.ofArguments (lines.map asking ++ args) = (Request.ofArguments args).behind lines := by
  have hread (o : Options) : readArguments o (lines.map asking ++ args) =
      readArguments { o with commands := o.commands ++ lines } args := by
    induction lines generalizing o with
    | nil => rw [List.map_nil, List.nil_append, List.append_nil]
    | cons line lines ih =>
        rw [List.map_cons, List.cons_append, readArguments, ofArgument_asking]
        refine (ih _).trans ?_
        rw [List.append_assoc, List.singleton_append]
  have hbehind := readArguments_behind lines ⟨none, none, []⟩ args
  rw [Options.behind, List.append_nil] at hbehind
  exact (hread _).trans hbehind

end DesktopShell.Cli

import DesktopShell.CommandLine.Words
import DesktopShell.Table
import DesktopShell.Text.Lowercase
import DesktopShell.Text.Split

namespace DesktopShell

inductive FlagValue
  | on
  | text (value : String)
  deriving DecidableEq

def FlagValue.render : FlagValue → String
  | .on => "true"
  | .text value => value

-- A line taken apart. `tokens` are all its words, `name` is the first one in lower case. A
-- blank line keeps nothing but its own text.
structure CommandLine where
  raw : String
  tokens : List String
  name : String
  args : List String
  flags : Table FlagValue
  isEmpty : Bool

namespace CommandLine

-- What a word behind the command name adds: an argument, or settings of flags in order.
inductive Part
  | argument (word : String)
  | settings (flags : List (String × FlagValue))

-- `--name` switches a flag on and `--name=value` gives it a text, except that the text `true`
-- is the same as no text. `-xyz` switches on one flag for each character, in lower case. Bare
-- dashes, one or two, are arguments.
def Part.ofWord (word : String) : Part :=
  match word.toList with
  | ['-', '-'] => .argument word
  | '-' :: '-' :: long =>
      match Text.splitFirst? '=' long with
      | some (name, value) =>
          let value := String.ofList value
          .settings [(String.ofList name, if value = "true" then .on else .text value)]
      | none => .settings [(String.ofList long, .on)]
  | '-' :: c :: cs => .settings ((c :: cs).map fun x => (String.ofList (Text.lowerChar x), .on))
  | _ => .argument word

def Part.argument? : Part → Option String
  | .argument word => some word
  | .settings _ => none

def Part.flags : Part → List (String × FlagValue)
  | .argument _ => []
  | .settings flags => flags

def parse (line : String) : CommandLine :=
  match words line with
  | [] => ⟨line, [], "", [], .empty, true⟩
  | first :: rest =>
      let parts := rest.map Part.ofWord
      { raw := line
        tokens := first :: rest
        name := Text.lowercase first
        args := parts.filterMap Part.argument?
        flags := (parts.flatMap Part.flags).foldl (fun t f => t.set f.1 f.2) .empty
        isEmpty := false }

def firstArg? (line : CommandLine) : Option String :=
  line.args.head?

def rest (line : CommandLine) : String :=
  " ".intercalate line.args

end CommandLine

end DesktopShell

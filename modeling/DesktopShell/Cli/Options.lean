import DesktopShell.Text.Split

-- The arguments of the program.
namespace DesktopShell.Cli

-- What a run is told: the file of its settings, the file its drive is kept in, and the lines to
-- run instead of those on the input.
structure Options where
  config : Option String
  snapshot : Option String
  commands : List String
  deriving DecidableEq

inductive Parameter
  | config
  | snapshot
  | command
  deriving DecidableEq

-- An argument by its form: an option, with its value if it holds one, a request that is met
-- at once, the end of the options, or none of these.
inductive Form
  | option (which : Parameter) (value? : Option String)
  | help
  | version
  | endOfOptions
  | misuse
  deriving DecidableEq

inductive Request
  | run (options : Options)
  | help
  | version
  | misuse
  deriving DecidableEq

def Form.ofLong (name : String) (value? : Option String) : Form :=
  match name, value? with
  | "config", _ => .option .config value?
  | "snapshot", _ => .option .snapshot value?
  | "command", _ => .option .command value?
  | "help", none => .help
  | "version", none => .version
  | _, _ => .misuse

-- A value may follow a one-letter option at once or behind an equals sign.
def Form.ofShort (letter : Char) (rest : List Char) : Form :=
  let value? := match rest with
    | [] => none
    | '=' :: value | value => some (String.ofList value)
  match letter with
  | 'c' => .option .config value?
  | 's' => .option .snapshot value?
  | 'e' => .option .command value?
  | 'h' => .help
  | 'V' => .version
  | _ => .misuse

def Form.ofArgument (arg : String) : Form :=
  match arg.toList with
  | ['-', '-'] => .endOfOptions
  | '-' :: '-' :: long =>
      match Text.splitFirst? '=' long with
      | some (name, value) => .ofLong (String.ofList name) (some (String.ofList value))
      | none => .ofLong (String.ofList long) none
  | '-' :: letter :: rest => .ofShort letter rest
  | _ => .misuse

-- A value that stands by itself must not look like an option. A single dash does not.
def isValue (arg : String) : Bool :=
  match arg.toList with
  | '-' :: _ :: _ => false
  | _ => true

-- Only lines can be given more than once, and only they can be empty.
def Options.set? (o : Options) (which : Parameter) (value : String) : Option Options :=
  match which with
  | .config => if value = "" ∨ o.config.isSome then none else some { o with config := some value }
  | .snapshot =>
      if value = "" ∨ o.snapshot.isSome then none else some { o with snapshot := some value }
  | .command => some { o with commands := o.commands ++ [value] }

-- Read arguments from left to right, up to the first that is wrong or asks for help or the
-- version.
def readArguments (o : Options) : List String → Request
  | [] => .run o
  | arg :: rest =>
      match Form.ofArgument arg with
      | .help => .help
      | .version => .version
      | .misuse => .misuse
      | .endOfOptions => if rest = [] then .run o else .misuse
      | .option which (some value) =>
          match o.set? which value with
          | some o => readArguments o rest
          | none => .misuse
      | .option which none =>
          match rest with
          | value :: rest =>
              if isValue value then
                match o.set? which value with
                | some o => readArguments o rest
                | none => .misuse
              else .misuse
          | [] => .misuse

def Request.ofArguments (args : List String) : Request :=
  readArguments ⟨none, none, []⟩ args

end DesktopShell.Cli

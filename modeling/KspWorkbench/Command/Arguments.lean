/-!
# Command-line arguments

Options come before, between or after the operands of a command; after `--` everything is an
operand. The configuration file may be named before the command or behind it, and the later place
wins; at either place it may be named only once. No file name may be empty.
-/

namespace KspWorkbench

/-- What the program is asked to do: to validate files, to compile a script, to list what a script
declares, or to converse with an editor. -/
inductive Command where
  | check (files : List String) (json : Bool)
  | compile (input : String) (output : Option String)
  | symbols (file : String) (json : Bool)
  | serve
  deriving DecidableEq, Repr

/-- A command and the configuration file that it uses instead of the usual one. -/
structure Invocation where
  config : Option String
  command : Command
  deriving DecidableEq, Repr

/-- Why arguments do not lead to a command: they are wrong, or the user wants to know how the
program is used or which version it is. -/
inductive ArgumentStop where
  | usage
  | help
  | version
  deriving DecidableEq, Repr

/-- One argument by its form: `--name` or `--name=value`, `-x` by its first letter, `--`, and
anything else, also a single `-`. -/
inductive Argument where
  | long (name : String) (value : Option String)
  | short (letter : Char)
  | separator
  | operand
  deriving DecidableEq, Repr

def Argument.ofString (arg : String) : Argument :=
  match arg.toList with
  | ['-', '-'] => .separator
  | '-' :: '-' :: rest =>
    let name := String.ofList (rest.takeWhile (· ≠ '='))
    match rest.dropWhile (· ≠ '=') with
    | _ :: value => .long name (some (String.ofList value))
    | [] => .long name none
  | '-' :: letter :: _ => .short letter
  | _ => .operand

/-- The options that a place in the command line takes; at a `single` one the first operand ends it.
-/
structure OptionSet where
  json : Bool := false
  version : Bool := false
  single : Bool := false
  deriving DecidableEq, Repr

/-- What was found at a place in the command line. -/
structure Gathered where
  config : Option String := none
  json : Bool := false
  operands : List String := []
  deriving DecidableEq, Repr

namespace Gathered

/-- With the configuration file, which may be named once and not be empty. -/
def withConfig (g : Gathered) (path : String) : Except ArgumentStop Gathered :=
  if g.config.isSome ∨ path = "" then .error .usage else .ok { g with config := some path }

/-- With `--json`, which may be given once. -/
def withJson (g : Gathered) : Except ArgumentStop Gathered :=
  if g.json then .error .usage else .ok { g with json := true }

def withOperand (g : Gathered) (operand : String) : Gathered :=
  { g with operands := g.operands ++ [operand] }

end Gathered

/-- Takes an option that has no value in the next argument. -/
def takeOption (set : OptionSet) (g : Gathered) : Argument → Except ArgumentStop Gathered
  | .long "config" (some path) => g.withConfig path
  | .long "json" none => if set.json then g.withJson else .error .usage
  | .long "version" none | .short 'V' => .error (if set.version then .version else .usage)
  | .long "help" none | .short 'h' => .error .help
  | _ => .error .usage

/-- Gathers options and operands, and gives the arguments that are left. -/
def gather (set : OptionSet) (g : Gathered) :
    List String → Except ArgumentStop (Gathered × List String)
  | [] => .ok (g, [])
  | arg :: rest =>
    match Argument.ofString arg with
    | .operand =>
      if set.single then .ok (g.withOperand arg, rest) else gather set (g.withOperand arg) rest
    | .separator =>
      if set.single then .error .usage else .ok (rest.foldl Gathered.withOperand g, [])
    | .long "config" none =>
      match rest with
      | [] => .error .usage
      | path :: rest =>
        match Argument.ofString path, g.withConfig path with
        | .operand, .ok g => gather set g rest
        | _, _ => .error .usage
    | option =>
      match takeOption set g option with
      | .ok g => gather set g rest
      | .error stop => .error stop

def commandOf (name : String) (g : Gathered) : Except ArgumentStop Command :=
  if g.operands.contains "" then .error .usage
  else
    match name, g.operands with
    | "check", file :: files => .ok (.check (file :: files) g.json)
    | "compile", [input] => .ok (.compile input none)
    | "compile", [input, output] => .ok (.compile input (some output))
    | "symbols", [file] => .ok (.symbols file g.json)
    | "serve", [] => .ok .serve
    | _, _ => .error .usage

def takesJson (name : String) : Bool :=
  name = "check" || name = "symbols"

def commandNames : List String :=
  ["check", "compile", "symbols", "serve"]

def readArguments (args : List String) : Except ArgumentStop Invocation := do
  let (front, rest) ← gather { version := true, single := true } {} args
  match front.operands with
  | ["help"] => .error (if rest.all commandNames.contains then .help else .usage)
  | [name] =>
    if commandNames.contains name then
      let (back, _) ← gather { json := takesJson name } {} rest
      return ⟨back.config <|> front.config, ← commandOf name back⟩
    else
      .error .usage
  | _ => .error .usage

end KspWorkbench

import KspWorkbench.Compiler.Options
import KspWorkbench.Data.Toml.Reader
import KspWorkbench.Machine.FileTree
import KspWorkbench.Validation.Settings

/-!
# The configuration file

A TOML document with two tables, `compiler` and `validate`, either of which may be missing. Anything
else at the top is refused; unknown keys inside the two tables are not.
-/

namespace KspWorkbench

/-- A configuration; a part that is not given is absent. -/
structure Config where
  compiler : Option Options := none
  validate : Option Settings := none
  deriving DecidableEq, Repr

/-- Why a configuration could not be loaded: the file could not be read, or it is no configuration.
-/
inductive ConfigError where
  | read (path cause : String)
  | parse (path : String)
  deriving DecidableEq, Repr

/-- The text of the failure. What is wrong with the document is left out. -/
def ConfigError.message : ConfigError → String
  | .read path cause => "failed to read config at " ++ path ++ ": " ++ cause
  | .parse path => "failed to parse config at " ++ path

namespace Config

def options (c : Config) : Options :=
  c.compiler.getD {}

def settings (c : Config) : Settings :=
  c.validate.getD {}

/-- A list as it is taken for a table: by position, and without regard to what is too much. -/
def positional (names : List String) : Datum → Datum
  | .list items => .list (items.take names.length)
  | d => d

/-- Reads a table that may be missing. -/
def table? {α : Type} (names : List String) (read : Datum → Option α) :
    Option Datum → Option (Option α)
  | none => some none
  | some d => (read (positional names d)).map some

def ofDatum? : Datum → Option Config
  | .record fields => do
    if fields.any fun (key, _) => key ≠ "compiler" ∧ key ≠ "validate" then none else
    let compiler ← table? Options.names Options.ofDatum? (fields.lookup "compiler")
    let validate ← table? Settings.names Settings.ofDatum? (fields.lookup "validate")
    return ⟨compiler, validate⟩
  | _ => none

def parse? (text : String) : Option Config := do
  ofDatum? (← Toml.read? text)

/-- Loads a configuration, given what became of reading the file. That there is no such file is no
failure. -/
def load (path : String) (content : Except FileError (List UInt8)) :
    Except ConfigError (Option Config) :=
  match content >>= decodeFile with
  | .error e => if e.isPresent then .error (.read path e.message) else .ok none
  | .ok text =>
    match parse? text with
    | some config => .ok (some config)
    | none => .error (.parse path)

end Config

end KspWorkbench

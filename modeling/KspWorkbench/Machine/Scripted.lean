import KspWorkbench.Machine.Interface

/-!
# Scripted machines

A machine whose programs behave as written down beforehand: for rehearsing commands without a
compiler. A program looks at the input among its arguments and does, at its k-th start for that
input, what the k-th entry says, or the last one if there are fewer.
-/

namespace KspWorkbench

/-- What a scripted program does with the output file: it writes something, or the input in upper
case, or removes the file. -/
inductive OutputAction where
  | write (content : List UInt8)
  | uppercase
  | delete
  deriving DecidableEq, Repr

/-- What a scripted program does in one run. Of its exit code the low eight bits count; it can be
killed instead. The actions are for the output file, if one is named. -/
structure RunScript where
  stdout : List UInt8 := []
  stderr : List UInt8 := []
  exit : Int := 0
  killed : Bool := false
  actions : List OutputAction := []
  deriving DecidableEq, Repr

/-- What stands under the name of a program. A program has its runs by input; `*` stands for any
other input. -/
inductive ScriptedProgram where
  | notExecutable
  | badFormat
  | directory
  | scripts (runs : List (String × List RunScript))
  deriving DecidableEq, Repr

/-- A program that was started, with the input among its arguments and the number of programs that
were started for this input before. -/
structure ProgramStart where
  program : String
  args : List String
  input : String
  run : Nat
  deriving DecidableEq, Repr

/-- The state of a scripted machine: its files, its programs by name with the place where they are,
the path of a temporary file if there is room for one, and the programs started so far. -/
structure Stage where
  files : FileTree
  programs : List (String × ScriptedProgram) := []
  programPlace : Place := []
  scratch : Option String := none
  started : List ProgramStart := []

/-- The least number of bytes that is too long for an argument. -/
def maxArgumentBytes : Nat :=
  131072

namespace ScriptedProgram

def runsFor (runs : List (String × List RunScript)) (input : String) : List RunScript :=
  (runs.lookup input).getD ((runs.lookup "*").getD [])

def script (runs : List RunScript) (k : Nat) : RunScript :=
  runs.getD (min k (runs.length - 1)) {}

/-- The input and the output among the arguments of a compiler: those behind the indent size and the
trailing flags, or the first ones if there is no indent size. -/
def operands (args : List String) : List String :=
  match args.dropWhile (· ≠ indentSizeFlag) with
  | [] => args
  | rest =>
    (rest.drop 2).dropWhile fun a => a = "--add_compile_date" ∨ a = "--sanitize_exit_command"

end ScriptedProgram

namespace Stage

/-- The name of the program at a place. -/
def programAt? (s : Stage) (place : Place) : Option String :=
  if place.dropLast = s.programPlace then place.getLast? else none

/-- The program that an executable names. A single component is looked up among the programs; any
other path is followed. -/
def find? (s : Stage) (executable : String) : Option (String × ScriptedProgram) := do
  if executable.contains (Char.ofNat 0) ∨ FileTree.namesDirectory executable then none else
  let name ←
    if (PathName.ofString executable).length ≤ 1 then
      (PathName.ofString executable).names.head?
    else
      match s.files.locate executable with
      | .ok place => s.programAt? place
      | .error _ => none
  match s.programs.lookup name with
  | some .notExecutable | some .directory | none => none
  | some program => some (name, program)

def act (s : Stage) (input output : String) (action : OutputAction) : Stage :=
  match action with
  | .write content => { s with files := s.files.write output content }
  | .delete => { s with files := s.files.remove output }
  | .uppercase =>
    match s.files.read input with
    | .error _ => s
    | .ok content =>
      let upper := content.map fun b => if 97 ≤ b ∧ b ≤ 122 then b - 32 else b
      { s with files := s.files.write output upper }

def perform (s : Stage) (program : String) (runs : List (String × List RunScript))
    (args : List String) : Process × Stage :=
  let operands := ScriptedProgram.operands args
  let input := operands.headD ""
  let run := s.started.countP (·.input = input)
  let script := ScriptedProgram.script (ScriptedProgram.runsFor runs input) run
  let s := { s with started := s.started ++ [⟨program, args, input, run⟩] }
  let s := match operands[1]? with
    | some output => script.actions.foldl (fun s action => s.act input output action) s
    | none => s
  let code := if script.killed then none else some (script.exit % 256)
  (⟨[.bytes script.stdout], [.bytes script.stderr], .ok code⟩, s)

def start (s : Stage) (request : Request) : Except RunError Process × Stage :=
  let executable := request.executable
  match s.find? executable with
  | none => (.error (.notFound executable), s)
  | some (name, program) =>
    if request.args.any (·.contains (Char.ofNat 0)) then
      (.error (.spawn executable "nul byte found in provided data"), s)
    else if request.args.any (maxArgumentBytes ≤ ·.utf8ByteSize) then
      (.error (.spawn executable "Argument list too long (os error 7)"), s)
    else
      match program with
      | .scripts runs =>
        let (process, s) := s.perform name runs request.args
        (.ok process, s)
      | _ => (.error (.spawn executable "Exec format error (os error 8)"), s)

/-- The programs started, ordered by input and then by run. -/
def startedInOrder (starts : List ProgramStart) : List ProgramStart :=
  starts.mergeSort fun a b => if a.input = b.input then a.run ≤ b.run else a.input < b.input

end Stage

def scriptedMachine : Machine Stage where
  fileContent s path := s.files.read path
  createScratch s :=
    match s.scratch with
    | some path => (.ok path, { s with files := s.files.write path [] })
    | none => (.error FileError.missing.message, s)
  removeScratch s path := { s with files := s.files.remove path }
  start s request := s.start request

end KspWorkbench

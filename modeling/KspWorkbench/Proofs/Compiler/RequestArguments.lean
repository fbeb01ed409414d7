import KspWorkbench.Compiler.Request
import KspWorkbench.Proofs.Sequences

/-!
# The arguments of a request

A request puts its arguments in one row, and nothing in the row says where the optional ones begin:
a script, an input or an output may be spelled like a flag. What holds the row together is the
argument before the indent size, which is none of the flags in front of it.

* **`enabledFlags_inj`** — which flags are on, told from the list of those that are.
* **`argumentsFrom_inj`** — the row behind the script, taken apart from both ends.
* **`arguments_uniquely_decodable`** — two requests with the same arguments are the same, as far as
  arguments go.
-/

namespace KspWorkbench

/-! ## §1 — lists of flags -/

/-- A flag that is on is put first, and one that is off leaves no trace. -/
theorem enabledFlags_cons (on : Bool) (name : String) (flags : List (Bool × String)) :
    enabledFlags ((on, name) :: flags) =
      if on then name :: enabledFlags flags else enabledFlags flags := by
  cases on <;> rfl

/-- Only names of flags are put in the row. -/
theorem mem_names_of_mem_enabledFlags {flags : List (Bool × String)} {name : String}
    (h : name ∈ enabledFlags flags) : name ∈ flags.map Prod.snd :=
  List.map_subset Prod.snd (List.filter_sublist.subset) h

/-- **The flags that are on** say of every flag whether it is, if no two have one name. -/
theorem enabledFlags_inj {flags flags' : List (Bool × String)}
    (hnames : flags.map Prod.snd = flags'.map Prod.snd) (hnodup : (flags.map Prod.snd).Nodup)
    (h : enabledFlags flags = enabledFlags flags') : flags = flags' := by
  induction flags generalizing flags' with
  | nil => exact (List.map_eq_nil_iff.mp hnames.symm).symm
  | cons flag flags ih =>
    obtain ⟨on, name⟩ := flag
    cases flags' with
    | nil => cases hnames
    | cons flag' flags' =>
      obtain ⟨on', name'⟩ := flag'
      obtain ⟨hname, hrest⟩ := List.cons.inj hnames
      obtain rfl : name = name' := hname
      obtain ⟨hfirst, hothers⟩ := List.nodup_cons.mp hnodup
      have hfirst' : name ∉ flags'.map Prod.snd := hrest ▸ hfirst
      rw [enabledFlags_cons, enabledFlags_cons] at h
      cases on <;> cases on'
      · rw [ih hrest hothers h]
      -- a flag that is on in one list only would stand among the others in the other list.
      · have hmem : name ∈ enabledFlags flags := by
          rw [show enabledFlags flags = name :: enabledFlags flags' from h]
          exact List.mem_cons_self
        exact absurd (mem_names_of_mem_enabledFlags hmem) hfirst
      · have hmem : name ∈ enabledFlags flags' := by
          rw [show enabledFlags flags' = name :: enabledFlags flags from h.symm]
          exact List.mem_cons_self
        exact absurd (mem_names_of_mem_enabledFlags hmem) hfirst'
      · rw [ih hrest hothers (List.cons.inj h).2]

namespace Options

variable {o o' : Options}

/-- The names of the flags are the same for all options. -/
theorem names_leadingFlags (o : Options) :
    o.leadingFlags.map Prod.snd = ({} : Options).leadingFlags.map Prod.snd :=
  rfl

/-- The names of the flags are the same whatever the options are, and only whether they are on
differs. -/
theorem names_trailingFlags (o : Options) :
    o.trailingFlags.map Prod.snd = ({} : Options).trailingFlags.map Prod.snd :=
  rfl

/-- The flag of the indentation is none of the leading flags, so the first one in the row ends
them. -/
theorem indentSizeFlag_not_mem_leadingFlags (o : Options) :
    indentSizeFlag ∉ enabledFlags o.leadingFlags := by
  intro h
  have hmem := mem_names_of_mem_enabledFlags h
  rw [names_leadingFlags] at hmem
  exact absurd hmem (by decide)

/-- The row says which leading flags are on, since their names differ. -/
theorem leadingFlags_inj (h : enabledFlags o.leadingFlags = enabledFlags o'.leadingFlags) :
    o.leadingFlags = o'.leadingFlags :=
  enabledFlags_inj rfl (by rw [names_leadingFlags]; decide) h

theorem trailingFlags_inj (h : enabledFlags o.trailingFlags = enabledFlags o'.trailingFlags) :
    o.trailingFlags = o'.trailingFlags :=
  enabledFlags_inj rfl (by rw [names_trailingFlags]; decide) h

end Options

/-! ## §2 — the row of arguments -/

/-- The arguments of a request behind the script. -/
def argumentsFrom (o : Options) (input : String) (output : Option String) : List String :=
  enabledFlags o.leadingFlags ++
    indentSizeFlag :: toString o.indentSize ::
      (enabledFlags o.trailingFlags ++ input :: output.toList)

theorem args_build (o : Options) (input : String) (output : Option String) :
    (Request.build o input output).args = o.script.toList ++ argumentsFrom o input output := by
  simp [Request.build, argumentsFrom]

theorem length_toList_of_isSome {α : Type} {a b : Option α} (h : a.isSome = b.isSome) :
    a.toList.length = b.toList.length := by
  rw [Option.length_toList, Option.length_toList, h]

theorem option_toList_inj {α : Type} {a b : Option α} (h : a.toList = b.toList) : a = b := by
  cases a <;> cases b <;> simp_all

/-- No two numbers are written alike. -/
theorem toString_inj {m n : Nat} (h : toString m = toString n) : m = n := by
  have hdigits : Nat.toDigits 10 m = Nat.toDigits 10 n := by
    simpa using congrArg String.toList h
  rw [← @Nat.ofDigitChars_ten_toDigits m, hdigits, Nat.ofDigitChars_ten_toDigits]

variable {o o' : Options} {input input' : String} {output output' : Option String}

/-- **The row behind the script** is taken apart from the front up to the indent size, where no flag
can be mistaken for what announces it, and from the back up to the input. -/
theorem argumentsFrom_inj (houtput : output.isSome = output'.isSome)
    (h : argumentsFrom o input output = argumentsFrom o' input' output') :
    o.leadingFlags = o'.leadingFlags ∧ o.indentSize = o'.indentSize ∧
      o.trailingFlags = o'.trailingFlags ∧ input = input' ∧ output = output' := by
  have hflags (o : Options) : ∀ flag ∈ enabledFlags o.leadingFlags,
      (flag != indentSizeFlag) = true := by
    intro flag hflag
    rw [bne_iff_ne]
    rintro rfl
    exact o.indentSizeFlag_not_mem_leadingFlags hflag
  have hstop (rest : List String) : ∀ flag ∈ (indentSizeFlag :: rest).head?,
      (flag != indentSizeFlag) = false := by
    simp
  -- the row is read from both ends: up to the flag of the indentation from the front, and the
  -- files, whose number is known, from the back.
  obtain ⟨hleading, htail⟩ := span_unique h (hflags o) (hstop _) (hflags o') (hstop _)
  obtain ⟨hsize, hback⟩ := List.cons.inj (List.cons.inj htail).2
  have hlength : (input :: output.toList).length = (input' :: output'.toList).length := by
    rw [List.length_cons, List.length_cons, length_toList_of_isSome houtput]
  obtain ⟨htrailing, hfiles⟩ := List.append_inj' hback hlength
  obtain ⟨hinput, houtput⟩ := List.cons.inj hfiles
  exact ⟨Options.leadingFlags_inj hleading, toString_inj hsize,
    Options.trailingFlags_inj htrailing, hinput, option_toList_inj houtput⟩

/-- **Arguments are uniquely decodable.** If two requests agree on whether there is a script and
whether there is an output, and have the same arguments, then the options are the same but for the
program and the echo, which are no arguments, and so are input and output: however scripts, inputs
and outputs are spelled. An output is one more argument at the end. -/
theorem arguments_uniquely_decodable (o : Options) (input : String) (output : Option String) :
    (∀ (o' : Options) (input' : String) (output' : Option String),
      o.script.isSome = o'.script.isSome → output.isSome = output'.isSome →
      (Request.build o input output).args = (Request.build o' input' output').args →
      o' = { o with
        executable := o'.executable
        showStdout := o'.showStdout
        showStderr := o'.showStderr } ∧
      input' = input ∧ output' = output) ∧
    ∀ written : String, Request.build o input (some written) =
      { Request.build o input none with
        args := (Request.build o input none).args ++ [written] } := by
  refine ⟨fun o' input' output' hscript houtput h => ?_, fun written => ?_⟩
  · rw [args_build, args_build] at h
    obtain ⟨hfirst, hrest⟩ := List.append_inj h (length_toList_of_isSome hscript)
    obtain ⟨hleading, hsize, htrailing, hinput, hwritten⟩ := argumentsFrom_inj houtput hrest
    have hscript : o.script = o'.script := option_toList_inj hfirst
    refine ⟨?_, hinput.symm, hwritten.symm⟩
    -- all other fields are read off the two lists of flags.
    simp only [Options.leadingFlags, Options.trailingFlags, List.cons.injEq, Prod.mk.injEq,
      and_true] at hleading htrailing
    cases o
    cases o'
    simp_all
  · simp [Request.build]

/-- A script, an input and an output that are spelled like flags, and options that differ in the
program and the echo. -/
theorem arguments_of_flag_spellings :
    let o : Options := { script := some "--force", compact := true, addCompileDate := true }
    let o' : Options := { o with executable := "python3", showStderr := true }
    let args := ["--force", "--compact", "--indent-size", "4", "--add_compile_date",
      "--indent-size", "--sanitize_exit_command"]
    (Request.build o "--indent-size" (some "--sanitize_exit_command")).args = args ∧
    (Request.build o' "--indent-size" (some "--sanitize_exit_command")).args = args ∧
    o' = { o with
      executable := o'.executable
      showStdout := o'.showStdout
      showStderr := o'.showStderr } := by
  intro o o' args
  have hargs : (Request.build o "--indent-size" (some "--sanitize_exit_command")).args = args := by
    decide
  have hargs' : (Request.build o' "--indent-size" (some "--sanitize_exit_command")).args = args := by
    decide
  exact ⟨hargs, hargs', ((arguments_uniquely_decodable o "--indent-size" _).1 o' "--indent-size"
    (some "--sanitize_exit_command") rfl rfl (hargs.trans hargs'.symm)).1⟩

-- without the agreement a script can pass for a flag, and an input with an output for a flag with an
-- input.
example : (Request.build { script := some "--force" } "a.ksp" none).args =
    (Request.build { force := true } "a.ksp" none).args := by
  decide

example : (Request.build {} "--add_compile_date" (some "a.ksp")).args =
    (Request.build { addCompileDate := true } "a.ksp" none).args := by
  decide

end KspWorkbench

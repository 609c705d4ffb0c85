import DomainEvolution.Compilation

/-!
# The command line

What the arguments of a run ask for. Options have long names, some have short ones, and short ones
may be joined. The value of an option follows it, or is attached to it. A value that follows is
looked at only when the next option or the end of the arguments is reached, so a fault of the
arguments behind it can come first.
-/

namespace DomainEvolution.Command

/-- What a run is asked to do. -/
structure Options where
  /-- The path of the declaration; standard input if there is none. -/
  input : Option String := none
  /-- The path of the result; standard output if there is none. -/
  output : Option String := none
  sequential : Bool := false
  threads : Option Nat := none
  pretty : Bool := false
  verbose : Bool := false
  deriving DecidableEq, Repr, Inhabited

namespace Options

/-- How the transforms are to be computed. -/
def plan (options : Options) : Plan where
  parallel := !options.sequential
  threads := options.threads

end Options

/-- Why the arguments do not lead to a run. -/
inductive Refusal where
  | unknownArgument
  /-- An option lacks its value, or a path is empty. -/
  | invalidValue
  /-- A value is no number of 64 bits. -/
  | valueValidation
  /-- A flag has a value attached. -/
  | tooManyValues
  /-- An option is given twice, or two options exclude each other. -/
  | argumentConflict
  | displayHelp
  | displayVersion
  deriving DecidableEq, Repr, Inhabited

namespace Refusal

/-- The exit code of a program that stops for this reason. -/
def exitCode : Refusal → Nat
  | .displayHelp => 0
  | .displayVersion => 0
  | _ => 2

end Refusal

/-- The options that take a value. -/
inductive Setting where
  | input
  | output
  | threads
  deriving DecidableEq, Repr, Inhabited

/-- The options that take no value. -/
inductive Flag where
  | sequential
  | pretty
  | verbose
  | help
  | version
  deriving DecidableEq, Repr, Inhabited

/-- An option of either sort. -/
inductive Opt where
  | setting (setting : Setting)
  | flag (flag : Flag)
  deriving DecidableEq, Repr, Inhabited

namespace Opt

/-- The option with a long name. -/
def ofLong? : String → Option Opt
  | "input" => some (.setting .input)
  | "out" => some (.setting .output)
  | "threads" => some (.setting .threads)
  | "sequential" => some (.flag .sequential)
  | "pretty" => some (.flag .pretty)
  | "verbose" => some (.flag .verbose)
  | "help" => some (.flag .help)
  | "version" => some (.flag .version)
  | _ => none

/-- The option with a short name. -/
def ofShort? : Char → Option Opt
  | 'i' => some (.setting .input)
  | 'o' => some (.setting .output)
  | 'v' => some (.flag .verbose)
  | 'h' => some (.flag .help)
  | 'V' => some (.flag .version)
  | _ => none

end Opt

/-- A number of 64 bits: decimal digits, with a plus sign in front if one likes. -/
def word? (text : String) : Option Nat :=
  let digits :=
    match text.toList with
    | '+' :: rest => rest
    | all => all
  if digits.isEmpty || !digits.all Char.isDigit then none
  else
    let n := digits.foldl (fun n c => n * 10 + (c.toNat - 48)) 0
    if n < UInt64.size then some n else none

/-- Gives an option its value. An option without value is refused, then one that was given before,
and then a value that is no good. -/
def Setting.apply (options : Options) (value : Option String) : Setting → Except Refusal Options
  | .input => do
    let path ← given
    if options.input.isSome then throw .argumentConflict
    if path.isEmpty then throw .invalidValue
    return { options with input := path }
  | .output => do
    let path ← given
    if options.output.isSome then throw .argumentConflict
    if path.isEmpty then throw .invalidValue
    return { options with output := path }
  | .threads => do
    let text ← given
    if options.threads.isSome then throw .argumentConflict
    match word? text with
    | some n => return { options with threads := n }
    | none => throw .valueValidation
where
  /-- The value, if there is one. -/
  given : Except Refusal String :=
    match value with
    | some text => .ok text
    | none => .error .invalidValue

/-- Raises a flag; a flag is raised at most once. -/
def Flag.apply (options : Options) : Flag → Except Refusal Options
  | .sequential =>
    if options.sequential then .error .argumentConflict else .ok { options with sequential := true }
  | .pretty =>
    if options.pretty then .error .argumentConflict else .ok { options with pretty := true }
  | .verbose =>
    if options.verbose then .error .argumentConflict else .ok { options with verbose := true }
  | .help => .error .displayHelp
  | .version => .error .displayVersion

/-- The options read so far, and the last option if its value is still to be looked at: that it has
none yet, or the value that followed it. -/
structure Progress where
  options : Options := {}
  waiting : Option (Setting × Option String) := none
  deriving DecidableEq, Repr, Inhabited

namespace Progress

/-- Looks at the value of the last option. -/
def settle (progress : Progress) : Except Refusal Options :=
  match progress.waiting with
  | none => .ok progress.options
  | some (setting, value) => setting.apply progress.options value

/-- Reads an option that has a value attached or none. -/
def accept (progress : Progress) (attached : Option String) : Opt → Except Refusal Progress
  | .flag flag =>
    match attached with
    | some _ => .error .tooManyValues
    | none => do
      let options ← flag.apply (← progress.settle)
      return { options := options }
  | .setting setting => do
    let options ← progress.settle
    match attached with
    | some value => return { options := ← setting.apply options (some value) }
    | none => return { options := options, waiting := some (setting, none) }

/-- Reads an argument behind `--`: a long name, and behind the first `=` the value attached. -/
def acceptLong (progress : Progress) (body : List Char) : Except Refusal Progress :=
  let (name, rest) := body.span (· != '=')
  match Opt.ofLong? (String.ofList name) with
  | none => .error .unknownArgument
  | some opt =>
    match rest with
    | [] => progress.accept none opt
    | _ :: value => progress.accept (some (String.ofList value)) opt

/-- The value attached to a short name, with or without `=` between. -/
def attachedValue : List Char → Option String
  | [] => none
  | '=' :: value => some (String.ofList value)
  | value => some (String.ofList value)

/-- Reads an argument behind `-`: flags, up to an option that takes the rest for its value. -/
def acceptShort (progress : Progress) : List Char → Except Refusal Progress
  | [] => .ok progress
  | c :: rest =>
    match Opt.ofShort? c with
    | none => .error .unknownArgument
    | some (.setting setting) => progress.accept (attachedValue rest) (.setting setting)
    | some (.flag flag) => do acceptShort (← progress.accept none (.flag flag)) rest

/-- Reads an argument that is no option: the value that the last option waits for. -/
def acceptValue (progress : Progress) (arg : String) : Except Refusal Progress :=
  match progress.waiting with
  | some (setting, none) => .ok { progress with waiting := some (setting, some arg) }
  | _ => .error .unknownArgument

/-- Reads all arguments. Nothing may follow the argument that ends the options. -/
def acceptAll (progress : Progress) : List String → Except Refusal Options
  | [] => progress.settle
  | arg :: args =>
    match arg.toList with
    | ['-', '-'] => if args.isEmpty then progress.settle else .error .unknownArgument
    | '-' :: '-' :: body => do acceptAll (← progress.acceptLong body) args
    | '-' :: c :: body => do acceptAll (← progress.acceptShort (c :: body)) args
    | _ => do acceptAll (← progress.acceptValue arg) args

end Progress

/-- What the arguments of a run ask for. A number of workers makes no sense in a sequential run. -/
def Options.ofArgs (args : List String) : Except Refusal Options := do
  let options ← Progress.acceptAll {} args
  if options.sequential && options.threads.isSome then throw .argumentConflict
  return options

end DomainEvolution.Command

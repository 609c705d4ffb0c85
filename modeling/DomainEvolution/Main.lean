import DomainEvolution.Command.Run

/-!
# The program

Compiles a declared universe: reads its JSON form from a file or from standard input, and writes the
JSON form of the model to a file or to standard output.
-/

namespace DomainEvolution.Command

/-- What the program says about itself. -/
def usage : String :=
  "Compiles a universe of domains and transforms.\n\n" ++
  "Options:\n" ++
  "  -i, --input <PATH>   declaration to compile; standard input if left out\n" ++
  "  -o, --out <PATH>     file for the model; standard output if left out\n" ++
  "      --sequential     compute the transforms one after the other\n" ++
  "      --threads <N>    number of workers\n" ++
  "      --pretty         one item on a line\n" ++
  "  -v, --verbose        tell more\n" ++
  "  -h, --help           print this help\n" ++
  "  -V, --version        print the version\n"

/-- The version of the program. -/
def versionLine : String := "0.1.0\n"

/-- What the program says when it cannot make sense of its arguments. -/
def refusalText : Refusal → String
  | .unknownArgument => "unexpected argument"
  | .invalidValue => "a value is required"
  | .valueValidation => "invalid value"
  | .tooManyValues => "unexpected value"
  | .argumentConflict => "an option cannot be used here or not more than once"
  | .displayHelp => usage
  | .displayVersion => versionLine

/-- The fault behind an error of the operating system. -/
def fileFault : IO.Error → FileFault
  | .noFileOrDirectory .. => .notFound
  | .inappropriateType _ 20 _ => .notDirectory
  | .inappropriateType _ 21 _ => .isDirectory
  | error => .other (toString error)

/-- Runs an action and keeps the fault of a failure. -/
def attempt {α : Type} (action : IO α) : IO (Except FileFault α) := do
  try return .ok (← action) catch error => return .error (fileFault error)

/-- Reads the declaration. -/
def fetch (options : Options) : IO (Except FileFault ByteArray) :=
  attempt do
    match options.input with
    | some path => IO.FS.readBinFile path
    | none => (← IO.getStdin).readBinToEnd

/-- Writes the result. -/
def store (options : Options) (text : String) : IO (Except FileFault Unit) :=
  attempt do
    match options.output with
    | some path => IO.FS.writeFile path text
    | none =>
      let out ← IO.getStdout
      out.putStr text
      out.flush

/-- Reports a failure and gives its exit code. -/
def report (failure : Failure) : IO UInt32 := do
  IO.eprintln ("error: " ++ failure.message)
  return failure.exitCode.toUInt32

/-- One run of the program. -/
def runIO (options : Options) : IO UInt32 := do
  match respond options (← fetch options) with
  | .error failure => report failure
  | .ok text =>
    match ← store options text with
    | .error fault => report (outputFailure options fault)
    | .ok () => return 0

end DomainEvolution.Command

open DomainEvolution.Command in
/-- The program: exit code 0 if the model was written, 1 if the declaration was refused, and 2 in
all other cases. -/
def main (args : List String) : IO UInt32 := do
  match Options.ofArgs args with
  | .ok options => runIO options
  | .error refusal =>
    if refusal.exitCode = 0 then IO.print (refusalText refusal)
    else IO.eprintln ("error: " ++ refusalText refusal)
    return refusal.exitCode.toUInt32

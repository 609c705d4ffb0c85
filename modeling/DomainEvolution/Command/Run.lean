import DomainEvolution.Command.Files
import DomainEvolution.Command.Options
import DomainEvolution.Format.Declarations
import DomainEvolution.Format.Models

/-!
# A run of the compiler

A run reads a declaration, compiles it and writes the result. Nothing is written before everything
else has succeeded, and the exit code tells whether the declaration itself was refused.
-/

namespace DomainEvolution.Command

/-- Why a run fails. -/
inductive Failure where
  | read (path : String) (fault : FileFault)
  | standardInput (fault : FileFault)
  | write (path : String) (fault : FileFault)
  | standardOutput (fault : FileFault)
  | parse (fault : Json.Fault)
  | compile (error : CompileError)
  deriving DecidableEq, Repr, Inhabited

namespace Failure

/-- The failure in words. -/
def message : Failure → String
  | .read path fault => s!"failed to read {path}: " ++ fault.message
  | .standardInput fault => "failed to read standard input: " ++ fault.message
  | .write path fault => s!"failed to write {path}: " ++ fault.message
  | .standardOutput fault => "failed to write standard output: " ++ fault.message
  | .parse fault => "malformed universe declaration: " ++ fault.message
  | .compile error => error.message

/-- The exit code of a failed run: one if the declaration was refused, two for everything else. -/
def exitCode : Failure → Nat
  | .compile _ => 1
  | _ => 2

end Failure

/-- The layout of the result. -/
def layout (pretty : Bool) : Json.Layout := if pretty then .pretty else .compact

/-- Compiles a declaration given as JSON text into a model as JSON text, which ends in a line break.
-/
def compileText (plan : Plan) (pretty : Bool) (text : String) : Except Failure String := do
  let decl ←
    match Decl.Universe.codec.readText text with
    | .ok decl => pure decl
    | .error fault => throw (.parse fault)
  match Universe.compile decl plan with
  | .ok result => return Universe.codec.writeText (layout pretty) result ++ "\n"
  | .error error => throw (.compile error)

/-- The failure to read the declaration. -/
def inputFailure (options : Options) (fault : FileFault) : Failure :=
  match options.input with
  | some path => .read path fault
  | none => .standardInput fault

/-- The failure to write the result. -/
def outputFailure (options : Options) (fault : FileFault) : Failure :=
  match options.output with
  | some path => .write path fault
  | none => .standardOutput fault

/-- What a run writes, given what it has read. -/
def respond (options : Options) (input : Except FileFault ByteArray) : Except Failure String :=
  match input with
  | .error fault => .error (inputFailure options fault)
  | .ok bytes =>
    match String.fromUTF8? bytes with
    | none => .error (inputFailure options .notUtf8)
    | some text => compileText options.plan options.pretty text

/-- What a run leaves behind. -/
structure Outcome where
  exitCode : Nat
  standardOutput : String
  standardError : String
  files : Files

namespace Outcome

/-- A run that failed and left all files as they were. -/
def failed (files : Files) (failure : Failure) : Outcome :=
  ⟨failure.exitCode, "", "error: " ++ failure.message ++ "\n", files⟩

end Outcome

/-- What a run reads. -/
def readInput (options : Options) (standardInput : ByteArray) (files : Files) :
    Except FileFault ByteArray :=
  match options.input with
  | some path => files.read path
  | none => .ok standardInput

/-- A run over a tree of files. -/
def run (options : Options) (standardInput : ByteArray) (files : Files) : Outcome :=
  match respond options (readInput options standardInput files) with
  | .error failure => .failed files failure
  | .ok text =>
    match options.output with
    | none => ⟨0, text, "", files⟩
    | some path =>
      match files.write path text.toUTF8 with
      | .error fault => .failed files (outputFailure options fault)
      | .ok written => ⟨0, "", "", written⟩

end DomainEvolution.Command

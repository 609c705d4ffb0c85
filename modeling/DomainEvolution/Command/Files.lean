/-!
# A tree of files

The files that a run can see, as a value: a map from locations to files and directories. Reading
and writing take whole files, and paths are followed step by step. A run starts in the working
directory, which has further directories above it; nothing is known to be in those but the way down
to the working directory.
-/

namespace DomainEvolution.Command

/-- Why a file cannot be read or written. -/
inductive FileFault where
  | notFound
  | isDirectory
  | notDirectory
  | notUtf8
  | other (text : String)
  deriving DecidableEq, Repr, Inhabited

namespace FileFault

/-- The fault in words. -/
def message : FileFault → String
  | .notFound => "No such file or directory (os error 2)"
  | .isDirectory => "Is a directory (os error 21)"
  | .notDirectory => "Not a directory (os error 20)"
  | .notUtf8 => "stream did not contain valid UTF-8"
  | .other text => text

end FileFault

/-- What stands at a location. -/
inductive Entry where
  | file (content : ByteArray)
  | directory
  deriving Inhabited

instance : DecidableEq Entry
  | .file content, .file other =>
    decidable_of_iff (content.data = other.data)
      ⟨fun h => congrArg Entry.file (ByteArray.ext h), fun h => congrArg _ (Entry.file.inj h)⟩
  | .file _, .directory => isFalse Entry.noConfusion
  | .directory, .file _ => isFalse Entry.noConfusion
  | .directory, .directory => isTrue rfl

/-- A directory that is always there. -/
inductive Anchor where
  /-- The directory so many levels above the working directory, which is itself at level zero. -/
  | above (levels : Nat)
  /-- The topmost directory, which is above all others and its own parent. -/
  | top
  deriving DecidableEq, Repr, Inhabited

/-- A place in the tree: the steps that lead down to it from an anchor. -/
structure Location where
  anchor : Anchor
  steps : List String
  deriving DecidableEq, Repr, Inhabited

namespace Location

/-- The working directory. -/
def workingDirectory : Location := ⟨.above 0, []⟩

/-- The topmost directory. -/
def top : Location := ⟨.top, []⟩

/-- The place so many steps below the working directory. -/
def ofSteps (steps : List String) : Location := ⟨.above 0, steps⟩

/-- The place one step further down. -/
def child (location : Location) (step : String) : Location :=
  { location with steps := location.steps ++ [step] }

/-- The place one step further up. -/
def parent : Location → Location
  | ⟨.above levels, []⟩ => ⟨.above (levels + 1), []⟩
  | ⟨.top, []⟩ => ⟨.top, []⟩
  | ⟨anchor, step :: steps⟩ => ⟨anchor, (step :: steps).dropLast⟩

/-- Whether the way down to another place leads through this one. -/
def leadsTo (location other : Location) : Bool :=
  location.anchor == other.anchor && location.steps.isPrefixOf other.steps

end Location

/-- A tree of files. -/
structure Files where
  entries : List (Location × Entry)
  deriving DecidableEq, Inhabited

namespace Files

/-- What stands at a location. An anchor is a directory, and so is whatever leads to an entry. -/
def find? (files : Files) (location : Location) : Option Entry :=
  match files.entries.find? (·.1 == location) with
  | some (_, entry) => some entry
  | none =>
    if location.steps.isEmpty || files.entries.any (location.leadsTo ·.1) then some .directory
    else none

/-- Follows the steps of a path from a location; every step must start in a directory. -/
def follow (files : Files) (location : Location) : List String → Except FileFault Location
  | [] => .ok location
  | step :: steps =>
    match files.find? location with
    | none => .error .notFound
    | some (.file _) => .error .notDirectory
    | some .directory =>
      if step = "" ∨ step = "." then follow files location steps
      else if step = ".." then follow files location.parent steps
      else follow files (location.child step) steps

/-- Where a path starts: at the top if it begins with `/`, and else in the working directory. -/
def startOf (path : String) : Location :=
  if path.startsWith "/" then .top else .workingDirectory

/-- The steps of a path, some of which may be empty; the empty path leads nowhere. -/
def stepsOf (path : String) : Except FileFault (List String) :=
  if path.isEmpty then .error .notFound else .ok (path.splitOn "/")

/-- The location that a path leads to. -/
def locate (files : Files) (path : String) : Except FileFault Location := do
  files.follow (startOf path) (← stepsOf path)

/-- The whole content of a file. -/
def read (files : Files) (path : String) : Except FileFault ByteArray := do
  match files.find? (← files.locate path) with
  | none => throw .notFound
  | some .directory => throw .isDirectory
  | some (.file content) => return content

/-- The tree with another file at a location. -/
def insert (files : Files) (location : Location) (content : ByteArray) : Files :=
  ⟨(location, .file content) :: files.entries.filter (·.1 != location)⟩

/-- The location of a file that is to be written. A path that ends in `/` leads to no file, if it
leads anywhere. -/
def locateTarget (files : Files) (path : String) : Except FileFault Location := do
  let steps ← stepsOf path
  if steps.getLast? = some "" then
    let parents := ((steps.reverse.dropWhile (· == "")).drop 1).reverse
    let _ ← files.follow (startOf path) (parents ++ [""])
    throw .isDirectory
  let location ← files.follow (startOf path) steps
  match files.find? location with
  | some .directory => throw .isDirectory
  | _ => return location

/-- Writes a whole file, which need not have been there. -/
def write (files : Files) (path : String) (content : ByteArray) : Except FileFault Files := do
  return files.insert (← files.locateTarget path) content

end Files

end DomainEvolution.Command

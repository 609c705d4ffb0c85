import DomainEvolution.Difference
import DomainEvolution.Lineage

/-!
# Compilation of a universe

Compilation goes through five stages, and the first fault of the earliest stage that has one is the
result: no domain tag repeats, every domain is synthesized, every request names known domains, no
chain of requests leads back to its start, and every requested pair has a transform. Neither the
number of workers nor the order in which they finish shows in the result.
-/

namespace DomainEvolution

/-- How the transforms of a universe are computed. -/
structure Plan where
  /-- Whether transforms are computed side by side. -/
  parallel : Bool := true
  /-- The number of workers, if it is not left open. -/
  threads : Option Nat := none
  deriving DecidableEq, Repr, Inhabited

namespace Compilation

/-- Reads the domains with the earlier tags at hand: a domain tag may not come twice. -/
def checkDistinctAfter (earlier : List String) : List Decl.Domain → Except CompileError Unit
  | [] => .ok ()
  | next :: rest =>
    if earlier.contains next.tag then .error (.duplicateDomain next.tag)
    else checkDistinctAfter (next.tag :: earlier) rest

/-- The first domain whose tag an earlier domain has is refused. -/
def checkDistinct (domains : List Decl.Domain) : Except CompileError Unit :=
  checkDistinctAfter [] domains

/-- The first domain with a tag. -/
def find? (domains : List Domain) (tag : String) : Option Domain :=
  domains.find? (·.tag == tag)

/-- The domain that plays a role in a request. -/
def lookUp (domains : List Domain) (role : Role) (tag : String) : Except CompileError Domain :=
  match find? domains tag with
  | some domain => .ok domain
  | none => .error (.unknownDomain tag role)

/-- The domains that a request names, its source first. -/
def resolve (domains : List Domain) (request : Decl.Request) :
    Except CompileError (Domain × Domain) := do
  let source ← lookUp domains .source request.source
  let destination ← lookUp domains .destination request.destination
  return (source, destination)

/-- The transform that a request asks for. -/
def transform (domains : List Domain) (request : Decl.Request) :
    Except CompileError Transform := do
  let (source, destination) ← resolve domains request
  Transform.between source destination

/-- The values of a list of outcomes, or the first error in it. -/
def firstFailure {ε α : Type} : List (Except ε α) → Except ε (List α)
  | [] => .ok []
  | .error e :: _ => .error e
  | .ok a :: rest => (firstFailure rest).map (a :: ·)

/-- Finishes the job of one place: its outcome is kept there. -/
def finish {α β : Type} (job : α → β) (items : List α) (slots : List (Option β)) (place : Nat) :
    List (Option β) :=
  match items[place]? with
  | some item => slots.set place (some (job item))
  | none => slots

/-- The outcomes of jobs that were done side by side and finished in the order of the places in
`finished`: after all of them, the first failure by place is reported. -/
def sideBySide {ε α β : Type} (job : α → Except ε β) (items : List α) (finished : List Nat) :
    Except ε (List β) :=
  firstFailure ((finished.foldl (finish job items) (items.map fun _ => none)).filterMap id)

/-- The transform of a pair of domains. -/
def between (pair : Domain × Domain) : Except CompileError Transform :=
  Transform.between pair.1 pair.2

/-- The transforms of pairs of domains. One after the other, the first failure ends the work; a
single pair is never worth a worker. -/
def transforms (plan : Plan) (pairs : List (Domain × Domain)) :
    Except CompileError (List Transform) :=
  if plan.parallel && 2 ≤ pairs.length then sideBySide between pairs (List.range pairs.length)
  else pairs.mapM between

end Compilation

/-- The model of a declared universe. -/
def Universe.compile (decl : Decl.Universe) (plan : Plan) : Except CompileError Universe := do
  Compilation.checkDistinct decl.domains
  let domains ← decl.domains.mapM Domain.synthesize
  let pairs ← decl.requests.mapM (Compilation.resolve domains)
  Lineage.checkAcyclic decl.requests
  let transforms ← Compilation.transforms plan pairs
  return { domains := domains, transforms := transforms }

end DomainEvolution

import DomainEvolution.Declaration
import DomainEvolution.Error
import Std.Data.HashMap

/-!
# Lineage of domains

Requests form a directed graph from sources to destinations. A domain must not be its own ancestor,
so the graph must have no cycle. The graph is walked depth first with an explicit path, so a chain
may be of any length; every tag is entered at most once and every edge followed at most once.
-/

namespace DomainEvolution.Lineage

/-- The edges of a request graph: the destinations of each source, in request order. -/
abbrev Edges := Std.HashMap String (List String)

/-- The edges of a list of requests. -/
def edges (requests : List Decl.Request) : Edges :=
  requests.foldr (fun r e => e.insert r.source (r.destination :: e.getD r.source [])) ∅

/-- How far the walk has come with a tag that it has entered. -/
inductive Mark where
  /-- On the path: some of its edges may not have been followed. -/
  | pending
  /-- Left: all that can be reached from it has been seen. -/
  | finished
  deriving DecidableEq, Repr, Inhabited

/-- A walk in progress: the path from the root to the current tag, innermost first, each tag with
the destinations that were not yet followed; and the marks of all tags entered so far. -/
structure Walk where
  path : List (String × List String)
  marks : Std.HashMap String Mark

namespace Walk

/-- The walk before its first root. -/
def start : Walk := ⟨[], ∅⟩

/-- Begins with a tag that was not entered before. -/
def enter (graph : Edges) (tag : String) (walk : Walk) : Walk :=
  ⟨(tag, graph.getD tag []) :: walk.path, walk.marks.insert tag .pending⟩

/-- The chain that closes when the path leads back to one of its own tags. -/
def chainTo (tag : String) (walk : Walk) : List String :=
  (walk.path.map (·.1)).reverse.dropWhile (· != tag) ++ [tag]

/-- One round of a walk whose path is not empty: follows the next edge of the innermost tag, or
leaves the tag. The error is the chain of a cycle. -/
def step (graph : Edges) (walk : Walk) : Except (List String) Walk :=
  match walk.path with
  | [] => .ok walk
  | (tag, []) :: outer => .ok ⟨outer, walk.marks.insert tag .finished⟩
  | (tag, next :: later) :: outer =>
    let rest : Walk := ⟨(tag, later) :: outer, walk.marks⟩
    match walk.marks[next]? with
    | some .finished => .ok rest
    | some .pending => .error (rest.chainTo next)
    | none => .ok (rest.enter graph next)

end Walk

/-- How a walk within a budget of rounds ends. -/
inductive Outcome where
  /-- Everything was seen without a cycle, and rounds are left. -/
  | settled (left : Nat) (walk : Walk)
  /-- The chain of a cycle. -/
  | cycle (chain : List String)
  /-- The path was not yet empty when the budget was used up. -/
  | exhausted

/-- Takes rounds until the path is empty, as far as the budget goes. -/
def settle (graph : Edges) : Nat → Walk → Outcome
  | 0, walk => if walk.path.isEmpty then .settled 0 walk else .exhausted
  | budget + 1, walk =>
    if walk.path.isEmpty then .settled (budget + 1) walk
    else
      match walk.step graph with
      | .error chain => .cycle chain
      | .ok next => settle graph budget next

/-- Walks all that can be reached from a root, unless that was done before. -/
def visit (graph : Edges) (root : String) (budget : Nat) (walk : Walk) : Outcome :=
  if walk.marks[root]? == some .finished then .settled budget walk
  else settle graph budget (walk.enter graph root)

/-- Walks from each root in turn, all within one budget. -/
def visitAll (graph : Edges) : List String → Nat → Walk → Outcome
  | [], budget, walk => .settled budget walk
  | root :: roots, budget, walk =>
    match visit graph root budget walk with
    | .settled left next => visitAll graph roots left next
    | stopped => stopped

/-- The rounds that a whole walk can take: one for each edge, and one to leave each tag, of which
there are at most two for each request. -/
def roundBudget (requests : List Decl.Request) : Nat := 3 * requests.length

/-- The chain of the first cycle that a walk from each source in turn finds. -/
def cycle? (requests : List Decl.Request) : Option (List String) :=
  match visitAll (edges requests) (requests.map (·.source)) (roundBudget requests) Walk.start with
  | .cycle chain => some chain
  | _ => none

/-- Refuses requests that would make a domain its own ancestor. -/
def checkAcyclic (requests : List Decl.Request) : Except CompileError Unit :=
  match cycle? requests with
  | none => .ok ()
  | some chain => .error (.cyclicTransform chain)

end DomainEvolution.Lineage

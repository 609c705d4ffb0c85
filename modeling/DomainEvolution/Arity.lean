/-!
# Arities

An arity is the inclusive range of argument counts that a constructor accepts. Its upper end is open
when the constructor takes a repeated argument.
-/

namespace DomainEvolution

/-- The upper end of a range of argument counts. -/
inductive MaxArity where
  | bounded (count : Nat)
  | unbounded
  deriving DecidableEq, Repr, Inhabited

/-- A range of argument counts. Nothing keeps `max` above `min`: a range whose ends cross accepts
no count. -/
structure Arity where
  min : Nat
  max : MaxArity
  deriving DecidableEq, Repr, Inhabited

namespace Arity

/-- One count only. -/
def exact (count : Nat) : Arity := ⟨count, .bounded count⟩

/-- Every count from `min` on. -/
def atLeast (min : Nat) : Arity := ⟨min, .unbounded⟩

/-- The counts from `min` up to and including `max`. -/
def between (min max : Nat) : Arity := ⟨min, .bounded max⟩

/-- Whether the range has no upper end. -/
def isUnbounded (arity : Arity) : Bool := arity.max == .unbounded

/-- The largest accepted count, if there is one. -/
def maxBounded? (arity : Arity) : Option Nat :=
  match arity.max with
  | .bounded count => some count
  | .unbounded => none

/-- Whether a call with so many arguments is accepted. -/
def accepts (arity : Arity) (count : Nat) : Bool :=
  match arity.max with
  | .bounded max => arity.min ≤ count && count ≤ max
  | .unbounded => arity.min ≤ count

/-- A range of one count shows as that count, any other as its two ends. -/
def render (arity : Arity) : String :=
  match arity.max with
  | .bounded max =>
    if max = arity.min then toString max else toString arity.min ++ "..=" ++ toString max
  | .unbounded => toString arity.min ++ ".."

end Arity

end DomainEvolution

import DomainEvolution.Arity

/-!
# Builders

A builder is one way to construct a tuple. The builders of a tuple share a name and differ in the
number of their parameters; each says, property by property, what the constructor receives.
-/

namespace DomainEvolution

/-- What a constructor receives for one property. -/
inductive Argument where
  /-- The value of a parameter, given by name. -/
  | parameter (name : String)
  /-- No value, for an optional property. -/
  | absent
  /-- No values, for a variadic property. -/
  | empty
  deriving DecidableEq, Repr, Inhabited

/-- A parameter of a builder. -/
structure Parameter where
  name : String
  typeName : String
  defaultValue : Option Argument
  isVariadic : Bool
  deriving DecidableEq, Repr, Inhabited

/-- The argument that a builder passes on under the name of a property. -/
structure ConstructorArgument where
  name : String
  value : Argument
  deriving DecidableEq, Repr, Inhabited

/-- One construction entry point of a tuple. -/
structure Builder where
  name : String
  parameters : List Parameter
  arguments : List ConstructorArgument
  deriving DecidableEq, Repr, Inhabited

namespace Builder

/-- The number of parameters that take exactly one argument. -/
def fixedCount (builder : Builder) : Nat :=
  builder.parameters.countP (!·.isVariadic)

/-- The argument counts that a positional call of the builder may have. -/
def arity (builder : Builder) : Arity :=
  if builder.parameters.any (·.isVariadic) then .atLeast builder.fixedCount
  else .exact builder.fixedCount

end Builder

end DomainEvolution

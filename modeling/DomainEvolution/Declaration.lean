/-!
# Declarations

What a schema author writes: domains of tuples and sums, and the pairs of domains between which a
transform is wanted. Nothing is checked yet: tags may repeat, sums may be empty, and properties may
stand in an order that no constructor could have.
-/

namespace DomainEvolution

/-- How often a property occurs in one value of its tuple. -/
inductive Cardinality where
  | required
  | optional
  | variadic
  deriving DecidableEq, Repr, Inhabited

namespace Decl

/-- How a tuple is addressed: by position or by the names of its properties. -/
inductive TupleKind where
  | product
  | record
  deriving DecidableEq, Repr, Inhabited

/-- A declared property: its tag and the name of its type. -/
structure Property where
  tag : String
  typeName : String
  cardinality : Cardinality := .required
  deriving DecidableEq, Repr, Inhabited

/-- A declared tuple, at the top of a domain or as a variant of a sum. -/
structure Tuple where
  tag : String
  kind : TupleKind := .product
  properties : List Property := []
  deriving DecidableEq, Repr, Inhabited

/-- A declared sum of tuples. -/
structure Sum where
  tag : String
  variants : List Tuple
  deriving DecidableEq, Repr, Inhabited

/-- A declared domain: one version of a set of types. -/
structure Domain where
  tag : String
  tuples : List Tuple := []
  sums : List Sum := []
  deriving DecidableEq, Repr, Inhabited

/-- The wish for a transform between two domains, both given by tag. -/
structure Request where
  source : String
  destination : String
  deriving DecidableEq, Repr, Inhabited

/-- All that is compiled together. -/
structure Universe where
  domains : List Domain
  requests : List Request := []
  deriving DecidableEq, Repr, Inhabited

end Decl

end DomainEvolution

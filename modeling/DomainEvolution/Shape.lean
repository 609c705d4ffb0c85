import DomainEvolution.Error
import DomainEvolution.Model

/-!
# The shape of a tuple

The properties of a tuple form a legal shape when the required ones come first, then the optional
ones, and then at most one variadic one. The arity of a legal shape can be read off it; an illegal
shape is refused at its first property that cannot stand where it stands.
-/

namespace DomainEvolution.Shape

/-- The end of a shape whose variadic property has been read: nothing may follow. -/
def afterVariadic (variadic : Property) (arity : Arity) : List Property → Except ShapeError Arity
  | [] => .ok arity
  | next :: _ =>
    if next.isVariadic then .error (.multipleVariadic variadic.tag next.tag)
    else .error (.variadicNotLast variadic.tag)

/-- The rest of a shape with `required` required properties and `optional` optional ones read, of
which `first` was the first optional one. -/
def afterOptional (required : Nat) (first : Property) (optional : Nat) :
    List Property → Except ShapeError Arity
  | [] => .ok (.between required (required + optional))
  | next :: rest =>
    match next.cardinality with
    | .required => .error (.requiredAfterOptional next.tag first.tag)
    | .optional => afterOptional required first (optional + 1) rest
    | .variadic => afterVariadic next (.atLeast required) rest

/-- The rest of a shape of which only required properties have been read. -/
def afterRequired (required : Nat) : List Property → Except ShapeError Arity
  | [] => .ok (.between required required)
  | next :: rest =>
    match next.cardinality with
    | .required => afterRequired (required + 1) rest
    | .optional => afterOptional required next 1 rest
    | .variadic => afterVariadic next (.atLeast required) rest

/-- The argument counts that a constructor with these properties accepts, or the first fault of
their shape. -/
def arity (properties : List Property) : Except ShapeError Arity :=
  afterRequired 0 properties

end DomainEvolution.Shape

import DomainEvolution.Builder
import DomainEvolution.Declaration

/-!
# Synthesized domains

A domain whose names are generated, whose types are resolved and whose constructors have their arity
and builders, and the transforms between such domains. A value of these types need not come from a
declaration: tags may repeat and derived fields may be stale.
-/

namespace DomainEvolution

/-- The types that every domain knows. -/
inductive Primitive where
  | int
  | symbol
  | ion
  | bool
  | string
  deriving DecidableEq, Repr, Inhabited

namespace Primitive

/-- The primitive types in their fixed order. -/
def all : List Primitive := [.int, .symbol, .ion, .bool, .string]

/-- The name under which declarations mention the type. -/
def typeName : Primitive → String
  | .int => "int"
  | .symbol => "symbol"
  | .ion => "ion"
  | .bool => "bool"
  | .string => "string"

/-- The name of the type in generated code. -/
def generatedName : Primitive → String
  | .int => "LongPrimitive"
  | .symbol => "SymbolPrimitive"
  | .ion => "IonElement"
  | .bool => "BoolPrimitive"
  | .string => "StringPrimitive"

/-- The primitive type that declarations mention under a name. -/
def ofTypeName? (name : String) : Option Primitive :=
  all.find? (·.typeName == name)

end Primitive

/-- What the type name of a property refers to. -/
inductive TypeRef where
  | primitive (type : Primitive)
  /-- A member of the property's own domain. -/
  | domain (tag : String)
  /-- A type that the domain does not define. -/
  | opaqueType (name : String)
  deriving DecidableEq, Repr, Inhabited

namespace TypeRef

/-- The tag of the member that is referred to. -/
def domainTag? : TypeRef → Option String
  | .domain tag => some tag
  | .primitive _ => none
  | .opaqueType _ => none

end TypeRef

/-- The hook through which a property is transformed. -/
structure Hook where
  method : String
  cardinality : Cardinality
  deriving DecidableEq, Repr, Inhabited

/-- A property with its generated name and its resolved type. -/
structure Property where
  name : String
  tag : String
  typeName : String
  rawType : String
  typeRef : TypeRef
  isVariadic : Bool
  isNullable : Bool
  hook : Hook
  deriving DecidableEq, Repr, Inhabited

namespace Property

/-- The cardinality that the two flags stand for; a property with both is variadic. -/
def cardinality (property : Property) : Cardinality :=
  if property.isVariadic then .variadic
  else if property.isNullable then .optional
  else .required

/-- Whether a value has the property exactly once. -/
def isRequired (property : Property) : Bool :=
  !property.isVariadic && !property.isNullable

end Property

/-- How a member of a domain relates to the domain's predecessor. -/
inductive Evolution where
  | inherited
  | added
  | changed
  deriving DecidableEq, Repr, Inhabited

namespace Evolution

/-- Whether the transform of the member has to be written by hand. -/
def isTransformAbstract : Evolution → Bool
  | .inherited => false
  | .added => true
  | .changed => true

end Evolution

/-- A tuple with its derived arity and builders. -/
structure Tuple where
  name : String
  tag : String
  constructorName : String
  baseType : String
  properties : List Property
  arity : Arity
  builders : List Builder
  isRecord : Bool
  evolution : Evolution
  hasVariadic : Bool
  deriving DecidableEq, Repr, Inhabited

namespace Tuple

/-- Whether the transform of the tuple has to be written by hand. -/
def isTransformAbstract (tuple : Tuple) : Bool := tuple.evolution.isTransformAbstract

/-- The members of its own domain that the tuple refers to, in property order with repeats. -/
def referencedTags (tuple : Tuple) : List String :=
  tuple.properties.filterMap (·.typeRef.domainTag?)

end Tuple

/-- A sum of tuples. -/
structure Sum where
  name : String
  tag : String
  baseType : String
  variants : List Tuple
  evolution : Evolution
  deriving DecidableEq, Repr, Inhabited

namespace Sum

/-- Whether the transform of the sum has to be written by hand. -/
def isTransformAbstract (sum : Sum) : Bool := sum.evolution.isTransformAbstract

/-- The first variant with a tag. -/
def variant? (sum : Sum) (tag : String) : Option Tuple :=
  sum.variants.find? (·.tag == tag)

end Sum

/-- A synthesized domain. -/
structure Domain where
  name : String
  tag : String
  tuples : List Tuple
  sums : List Sum
  deriving DecidableEq, Repr, Inhabited

namespace Domain

/-- Whether the domain has no members. -/
def isEmpty (domain : Domain) : Bool := domain.tuples.isEmpty && domain.sums.isEmpty

/-- The first tuple at the top of the domain with a tag. -/
def tuple? (domain : Domain) (tag : String) : Option Tuple :=
  domain.tuples.find? (·.tag == tag)

/-- The first sum with a tag. -/
def sum? (domain : Domain) (tag : String) : Option Sum :=
  domain.sums.find? (·.tag == tag)

/-- The tuples at the top of the domain and then the variants of its sums. -/
def allTuples (domain : Domain) : List Tuple :=
  domain.tuples ++ domain.sums.flatMap (·.variants)

/-- The tags of all members: the tuples, and then each sum followed by its variants. -/
def tags (domain : Domain) : List String :=
  domain.tuples.map (·.tag) ++
    domain.sums.flatMap fun sum => sum.tag :: sum.variants.map (·.tag)

end Domain

/-- What changes from one domain to another: the members that need a new transform, gathered in a
domain of their own, and the tags that are gone. -/
structure Transform where
  difference : Domain
  sourceName : String
  destinationName : String
  removedTags : List String
  deriving DecidableEq, Repr, Inhabited

/-- Everything that a renderer needs. -/
structure Universe where
  domains : List Domain
  transforms : List Transform
  deriving DecidableEq, Repr, Inhabited

end DomainEvolution

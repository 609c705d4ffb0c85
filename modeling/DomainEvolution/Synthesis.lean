import DomainEvolution.Overload
import DomainEvolution.Shape

/-!
# Synthesis of a domain

A declared domain becomes a model: the tags of its members are checked, its type names are resolved,
its members are named, and the arity and the builders of its tuples are derived. Faults of the
domain as a whole are found before faults of single members.
-/

namespace DomainEvolution

namespace Synthesis

/-- A member of a domain: its tag and its name qualified by its owners. -/
structure Member where
  tag : String
  name : String
  deriving DecidableEq, Repr, Inhabited

/-- The members of a declared domain that is generated under a name, in the order in which they
claim their tags and names: every variant comes before its sum. -/
def membersOf (domainName : String) (decl : Decl.Domain) : List Member :=
  decl.tuples.map (fun tuple => ⟨tuple.tag, Name.qualify domainName (Name.pascal tuple.tag)⟩) ++
    decl.sums.flatMap fun sum =>
      let sumName := Name.qualify domainName (Name.pascal sum.tag)
      sum.variants.map (fun v => ⟨v.tag, Name.qualify sumName (Name.pascal v.tag)⟩) ++
        [⟨sum.tag, sumName⟩]

/-- The first member whose tag or qualified name an earlier member has is refused. -/
def checkMembers (domain : String) (members : List Member) : Except CompileError Unit :=
  match Clash.find? Member.tag Member.name members with
  | none => .ok ()
  | some (.tag later) => .error (.duplicateTag domain later.tag)
  | some (.name earlier later) =>
    .error (.nameCollision domain later.name earlier.tag later.tag)

/-- What type names mean inside a domain. -/
structure Scope where
  domainName : String
  members : List Member
  deriving DecidableEq, Repr, Inhabited

namespace Scope

/-- A type name means a primitive type before it means a member of the domain; any other name is
left for others to define. The second component is the generated name of the type. -/
def resolve (scope : Scope) (typeName : String) : TypeRef × String :=
  match Primitive.ofTypeName? typeName with
  | some type => (.primitive type, type.generatedName)
  | none =>
    match scope.members.find? (·.tag == typeName) with
    | some member => (.domain typeName, member.name)
    | none => (.opaqueType typeName, Name.pascal typeName)

/-- A qualified name without the domain that leads it; a name of any other form stays whole. -/
def withinDomain (domainName typeName : List Char) : List Char :=
  if (domainName ++ ['.']).isPrefixOf typeName then typeName.drop (domainName.length + 1)
  else typeName

/-- The name of the hook that transforms values of a type: its name inside the domain, without the
dots. -/
def hookMethod (scope : Scope) (typeName : String) : String :=
  let hook := (withinDomain scope.domainName.toList typeName.toList).filter (· != '.')
  "transform" ++ String.ofList hook

/-- A property with its name generated and its type resolved. -/
def property (scope : Scope) (decl : Decl.Property) : Property :=
  let (typeRef, typeName) := scope.resolve decl.typeName
  { name := Name.camel decl.tag
    tag := decl.tag
    typeName := typeName
    rawType := decl.typeName
    typeRef := typeRef
    isVariadic := decl.cardinality == .variadic
    isNullable := decl.cardinality == .optional
    hook := ⟨scope.hookMethod typeName, decl.cardinality⟩ }

/-- A tuple that belongs to `owner`. -/
def tuple (scope : Scope) (owner : String) (decl : Decl.Tuple) : Except ShapeError Tuple := do
  let properties := decl.properties.map scope.property
  let arity ← Shape.arity properties
  let name := Name.pascal decl.tag
  let bare : Tuple :=
    { name := name
      tag := decl.tag
      constructorName := Name.qualify owner name
      baseType := owner
      properties := properties
      arity := arity
      builders := []
      isRecord := decl.kind == .record
      evolution := .inherited
      hasVariadic := properties.any (·.isVariadic) }
  let builders ← Overload.builders bare
  return { bare with builders := builders }

end Scope

/-- The name under which an error mentions a variant. -/
def variantMember (sum variant : String) : String := sum ++ "." ++ variant

/-- A fault of one member of a domain. -/
def atMember {α : Type} (domain member : String) :
    Except ShapeError α → Except CompileError α
  | .ok a => .ok a
  | .error reason => .error (.invalidShape domain member reason)

/-- A sum of the domain with the tag `domain`; it needs at least one variant. -/
def Scope.sum (scope : Scope) (domain : String) (decl : Decl.Sum) :
    Except CompileError Sum := do
  if decl.variants.isEmpty then
    throw (.invalidShape domain decl.tag .emptySum)
  let name := Name.pascal decl.tag
  let owner := Name.qualify scope.domainName name
  let variants ← decl.variants.mapM fun variant =>
    atMember domain (variantMember decl.tag variant.tag) (scope.tuple owner variant)
  return {
    name := name
    tag := decl.tag
    baseType := scope.domainName
    variants := variants
    evolution := .inherited }

end Synthesis

/-- The model of a declared domain. -/
def Domain.synthesize (decl : Decl.Domain) : Except CompileError Domain := do
  let name := Name.pascal decl.tag
  let scope : Synthesis.Scope := ⟨name, Synthesis.membersOf name decl⟩
  Synthesis.checkMembers decl.tag scope.members
  let tuples ← decl.tuples.mapM fun tuple =>
    Synthesis.atMember decl.tag tuple.tag (scope.tuple name tuple)
  let sums ← decl.sums.mapM (scope.sum decl.tag)
  return { name := name, tag := decl.tag, tuples := tuples, sums := sums }

/-- The tuple with the fields that follow from its properties derived anew, and with an evolution of
its own. -/
def Tuple.refresh (tuple : Tuple) (evolution : Evolution) : Except ShapeError Tuple := do
  let arity ← Shape.arity tuple.properties
  let builders ← Overload.builders tuple
  return { tuple with
    arity := arity
    builders := builders
    evolution := evolution
    hasVariadic := tuple.properties.any (·.isVariadic) }

end DomainEvolution

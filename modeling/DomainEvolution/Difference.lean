import DomainEvolution.Synthesis

/-!
# The difference between two domains

A transform from one domain to another is the identity on members that did not change. The others
are gathered in a domain of their own: those that are new are `added`, and those whose tag the
source knows in another shape or another place are `changed`. Members are compared by tag and
structure alone; their generated names play no part.
-/

namespace DomainEvolution

namespace Property

/-- What a comparison reads of a property. -/
structure Skeleton where
  tag : String
  rawType : String
  isNullable : Bool
  isVariadic : Bool
  deriving DecidableEq, Repr, Inhabited

/-- What a comparison reads of the property. -/
def skeleton (property : Property) : Skeleton :=
  ⟨property.tag, property.rawType, property.isNullable, property.isVariadic⟩

end Property

namespace Tuple

/-- What a comparison reads of a tuple. -/
structure Skeleton where
  tag : String
  isRecord : Bool
  properties : List Property.Skeleton
  deriving DecidableEq, Repr, Inhabited

/-- What a comparison reads of the tuple. -/
def skeleton (tuple : Tuple) : Skeleton :=
  ⟨tuple.tag, tuple.isRecord, tuple.properties.map (·.skeleton)⟩

/-- Tuples of one structure: same tag, same kind, and properties that agree one by one. -/
def sameStructure (old new : Tuple) : Bool := old.skeleton == new.skeleton

end Tuple

namespace Sum

/-- The tags of the variants. -/
def variantTags (sum : Sum) : List String := sum.variants.map (·.tag)

/-- Sums with one tag and one set of variant tags, in whatever order and however often repeated. -/
def sameVariants (old new : Sum) : Bool :=
  old.tag == new.tag &&
    old.variantTags.all (new.variantTags.contains ·) &&
    new.variantTags.all (old.variantTags.contains ·)

/-- The last variant with a tag, the one that comparisons use. -/
def lastVariant? (sum : Sum) (tag : String) : Option Tuple :=
  sum.variants.reverse.find? (·.tag == tag)

/-- Whether the sum has the variant in the same structure. -/
def keeps (sum : Sum) (variant : Tuple) : Bool :=
  (sum.lastVariant? variant.tag).any (·.sameStructure variant)

end Sum

namespace Domain

/-- The last tuple at the top of the domain with a tag, the one that comparisons use. -/
def lastTuple? (domain : Domain) (tag : String) : Option Tuple :=
  domain.tuples.reverse.find? (·.tag == tag)

/-- The last sum with a tag, the one that comparisons use. -/
def lastSum? (domain : Domain) (tag : String) : Option Sum :=
  domain.sums.reverse.find? (·.tag == tag)

/-- The evolution of a member that the domain does not have in the same place: its tag may still be
known in another place. -/
def evolutionOf (domain : Domain) (tag : String) : Evolution :=
  if domain.tags.contains tag then .changed else .added

end Domain

namespace Difference

/-- The evolution of a tuple since the source, or nothing if it did not change. -/
def tupleEvolution? (source : Domain) (tuple : Tuple) : Option Evolution :=
  match source.lastTuple? tuple.tag with
  | none => some (source.evolutionOf tuple.tag)
  | some old => if old.sameStructure tuple then none else some .changed

/-- The evolution of a variant of a sum that is emitted as a whole; `old` is the source's sum. -/
def variantEvolution (source : Domain) (old : Sum) (variant : Tuple) : Evolution :=
  match old.lastVariant? variant.tag with
  | none => source.evolutionOf variant.tag
  | some oldVariant => if oldVariant.sameStructure variant then .inherited else .changed

/-- A tuple that a difference holds, with its evolution. -/
abbrev Emission := Tuple × Evolution

/-- The evolution of a sum since the source, with the variants to emit; nothing if it did not
change. A sum with the same set of variants is emitted for the sake of its changed variants only. -/
def sumEmission? (source : Domain) (sum : Sum) : Option (Evolution × List Emission) :=
  match source.lastSum? sum.tag with
  | none =>
    some (source.evolutionOf sum.tag, sum.variants.map fun v => (v, source.evolutionOf v.tag))
  | some old =>
    if old.sameVariants sum then
      match sum.variants.filter (!old.keeps ·) with
      | [] => none
      | variants => some (.inherited, variants.map fun v => (v, .changed))
    else
      some (.changed, sum.variants.map fun v => (v, variantEvolution source old v))

/-- The tuples that the difference holds. -/
def tupleEmissions (source destination : Domain) : List Emission :=
  destination.tuples.filterMap fun tuple =>
    (tupleEvolution? source tuple).map fun evolution => (tuple, evolution)

/-- The sums that the difference holds, each with its evolution and the variants it keeps. -/
def sumEmissions (source destination : Domain) : List (Sum × Evolution × List Emission) :=
  destination.sums.filterMap fun sum =>
    (sumEmission? source sum).map fun emission => (sum, emission)

/-- An emitted tuple, named `member` in errors, with its derived fields computed anew. -/
def emitTuple (domain member : String) (emission : Emission) : Except CompileError Tuple :=
  Synthesis.atMember domain member (emission.1.refresh emission.2)

/-- An emitted sum, with the derived fields of its variants computed anew. -/
def emitSum (domain : String) (emission : Sum × Evolution × List Emission) :
    Except CompileError Sum := do
  let (sum, evolution, kept) := emission
  let variants ← kept.mapM fun variant =>
    emitTuple domain (Synthesis.variantMember sum.tag variant.1.tag) variant
  return { sum with variants := variants, evolution := evolution }

/-- The tags of the source that the destination does not have, in the source's order. -/
def removedTags (source destination : Domain) : List String :=
  source.tags.filter (!destination.tags.contains ·)

/-- The tuples of a domain under the names by which errors mention them. -/
def members (domain : Domain) : List (String × Tuple) :=
  domain.tuples.map (fun tuple => (tuple.tag, tuple)) ++
    domain.sums.flatMap fun sum =>
      sum.variants.map fun v => (Synthesis.variantMember sum.tag v.tag, v)

/-- The first property of the first member whose type name is one of the removed tags. -/
def removedReference? (removed : List String) (difference : Domain) :
    Option (String × Property) :=
  (members difference).findSome? fun (member, tuple) =>
    (tuple.properties.find? (removed.contains ·.rawType)).map fun property => (member, property)

end Difference

/-- The transform from a source to a destination. It is refused if a member to emit has no legal
shape, and then if a member refers to a type that the source defines and the destination lacks. -/
def Transform.between (source destination : Domain) : Except CompileError Transform := do
  let tuples ← (Difference.tupleEmissions source destination).mapM fun emission =>
    Difference.emitTuple destination.tag emission.1.tag emission
  let sums ← (Difference.sumEmissions source destination).mapM
    (Difference.emitSum destination.tag)
  let difference : Domain :=
    { name := source.name ++ "To" ++ destination.name ++ "Difference"
      tag := source.tag ++ "_to_" ++ destination.tag
      tuples := tuples
      sums := sums }
  let removed := Difference.removedTags source destination
  match Difference.removedReference? removed difference with
  | some (member, property) =>
    throw (.removedTagReferenced source.tag destination.tag member property.tag property.rawType)
  | none =>
    return {
      difference := difference
      sourceName := source.name
      destinationName := destination.name
      removedTags := removed }

end DomainEvolution

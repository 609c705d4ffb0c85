import DomainEvolution.Clash
import DomainEvolution.Error
import DomainEvolution.Model
import DomainEvolution.Name

/-!
# The builders of a tuple

The first builder of a tuple takes every property. Each further one leaves out one more of the
optional properties at the end of the positional ones, together with a variadic property behind
them, so that every argument count is served by one builder.
-/

namespace DomainEvolution.Overload

/-- The first property whose tag or generated name an earlier property has is refused. -/
def checkNames (properties : List Property) : Except ShapeError Unit :=
  match Clash.find? Property.tag Property.name properties with
  | none => .ok ()
  | some (.tag later) => .error (.duplicateProperty later.tag)
  | some (.name earlier later) => .error (.nameCollision later.name earlier.tag later.tag)

/-- What the constructor receives for a property that a call leaves out; required properties cannot
be left out. -/
def omitted? (property : Property) : Option Argument :=
  if property.isVariadic then some .empty
  else if property.isNullable then some .absent
  else none

/-- The argument that passes a property's own parameter on. -/
def forward (property : Property) : ConstructorArgument :=
  ⟨property.name, .parameter property.name⟩

/-- The argument for a property that has no parameter. -/
def leaveOut (property : Property) : ConstructorArgument :=
  ⟨property.name, (omitted? property).getD .absent⟩

/-- The builder that takes every property. In a record, properties that can be left out show it by
a default value. -/
def baseline (name : String) (isRecord : Bool) (properties : List Property) : Builder where
  name := name
  parameters := properties.map fun property =>
    { name := property.name
      typeName := property.typeName
      defaultValue := if isRecord then omitted? property else none
      isVariadic := property.isVariadic }
  arguments := properties.map forward

/-- The builder that takes the first `kept` properties only, each of them once. -/
def shortened (name : String) (properties : List Property) (kept : Nat) : Builder where
  name := name
  parameters := (properties.take kept).map fun property =>
    { name := property.name
      typeName := property.typeName
      defaultValue := none
      isVariadic := false }
  arguments := (properties.take kept).map forward ++ (properties.drop kept).map leaveOut

/-- The properties before a variadic property at the end. -/
def positional (properties : List Property) : List Property :=
  match properties.getLast? with
  | some last => if last.isVariadic then properties.dropLast else properties
  | none => properties

/-- The number of optional properties at the end of a list. -/
def optionalRun (properties : List Property) : Nat :=
  (properties.reverse.takeWhile fun p => p.isNullable && !p.isVariadic).length

/-- The builders of a tuple, longest first. They do not depend on the fields that are derived from
the properties. -/
def builders (tuple : Tuple) : Except ShapeError (List Builder) := do
  checkNames tuple.properties
  let name := Name.camel tuple.tag
  let positional := positional tuple.properties
  let shorter := (List.range (optionalRun positional)).map fun i =>
    shortened name tuple.properties (positional.length - (i + 1))
  return baseline name tuple.isRecord tuple.properties :: shorter

end DomainEvolution.Overload

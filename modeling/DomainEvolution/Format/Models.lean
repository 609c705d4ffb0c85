import DomainEvolution.Format.Declarations
import DomainEvolution.Model

/-!
# The form of models

How synthesized domains and transforms are written down as JSON. Every field is written, in a fixed
order, and every field but a parameter's default value must be there when a model is read.
-/

namespace DomainEvolution

open Json

/-- The form of the upper end of an arity. -/
def MaxArity.codec : Codec MaxArity :=
  .choice [.holding "bounded" .size .bounded, .unit "unbounded" .unbounded]
    fun
    | .bounded count => tagged "bounded" (.nat count)
    | .unbounded => .string "unbounded"

/-- The form of an arity. -/
def Arity.codec : Codec Arity :=
  .record "Arity"
    (.cons "min" .size .refused <| .cons "max" MaxArity.codec .refused .nil)
    (fun (min, max, ()) => ⟨min, max⟩)
    (fun a => (a.min, a.max, ()))

/-- The form of an argument. -/
def Argument.codec : Codec Argument :=
  .choice
    [.holding "parameter" .string .parameter, .unit "absent" .absent, .unit "empty" .empty]
    fun
    | .parameter name => tagged "parameter" (.string name)
    | .absent => .string "absent"
    | .empty => .string "empty"

/-- The form of a parameter. -/
def Parameter.codec : Codec Parameter :=
  .record "Parameter"
    (.cons "name" .string .refused <|
      .cons "type_name" .string .refused <|
      .cons "default_value" (.option Argument.codec) (.fromObject none) <|
      .cons "is_variadic" .bool .refused .nil)
    (fun (name, typeName, defaultValue, isVariadic, ()) =>
      ⟨name, typeName, defaultValue, isVariadic⟩)
    (fun p => (p.name, p.typeName, p.defaultValue, p.isVariadic, ()))

/-- The form of a constructor argument. -/
def ConstructorArgument.codec : Codec ConstructorArgument :=
  .record "ConstructorArgument"
    (.cons "name" .string .refused <| .cons "value" Argument.codec .refused .nil)
    (fun (name, value, ()) => ⟨name, value⟩)
    (fun a => (a.name, a.value, ()))

/-- The form of a builder. -/
def Builder.codec : Codec Builder :=
  .record "BuilderFunction"
    (.cons "name" .string .refused <|
      .cons "parameters" (.list Parameter.codec) .refused <|
      .cons "constructor_arguments" (.list ConstructorArgument.codec) .refused .nil)
    (fun (name, parameters, arguments, ()) => ⟨name, parameters, arguments⟩)
    (fun b => (b.name, b.parameters, b.arguments, ()))

/-- The form of a primitive type. -/
def Primitive.codec : Codec Primitive :=
  .choice
    [.unit "int" .int, .unit "symbol" .symbol, .unit "ion" .ion, .unit "bool" .bool,
      .unit "string" .string]
    fun type => .string type.typeName

/-- The form of a resolved type. -/
def TypeRef.codec : Codec TypeRef :=
  .choice
    [.holding "primitive" Primitive.codec .primitive, .holding "domain" .string .domain,
      .holding "opaque" .string .opaqueType]
    fun
    | .primitive type => tagged "primitive" (Primitive.codec.write type)
    | .domain tag => tagged "domain" (.string tag)
    | .opaqueType name => tagged "opaque" (.string name)

/-- The form of a transform hook. -/
def Hook.codec : Codec Hook :=
  .record "PropertyTransform"
    (.cons "method" .string .refused <| .cons "cardinality" Cardinality.codec .refused .nil)
    (fun (method, cardinality, ()) => ⟨method, cardinality⟩)
    (fun h => (h.method, h.cardinality, ()))

/-- The form of a property. -/
def Property.codec : Codec Property :=
  .record "Property"
    (.cons "name" .string .refused <|
      .cons "tag" .string .refused <|
      .cons "type_name" .string .refused <|
      .cons "raw_type_name" .string .refused <|
      .cons "type_ref" TypeRef.codec .refused <|
      .cons "is_variadic" .bool .refused <|
      .cons "is_nullable" .bool .refused <|
      .cons "transform" Hook.codec .refused .nil)
    (fun (name, tag, typeName, rawType, typeRef, isVariadic, isNullable, hook, ()) =>
      ⟨name, tag, typeName, rawType, typeRef, isVariadic, isNullable, hook⟩)
    (fun p =>
      (p.name, p.tag, p.typeName, p.rawType, p.typeRef, p.isVariadic, p.isNullable, p.hook, ()))

/-- The form of an evolution. -/
def Evolution.codec : Codec Evolution :=
  .choice [.unit "inherited" .inherited, .unit "added" .added, .unit "changed" .changed]
    fun
    | .inherited => .string "inherited"
    | .added => .string "added"
    | .changed => .string "changed"

/-- The form of a tuple. -/
def Tuple.codec : Codec Tuple :=
  .record "Tuple"
    (.cons "name" .string .refused <|
      .cons "tag" .string .refused <|
      .cons "constructor_name" .string .refused <|
      .cons "base_type" .string .refused <|
      .cons "properties" (.list Property.codec) .refused <|
      .cons "arity" Arity.codec .refused <|
      .cons "builders" (.list Builder.codec) .refused <|
      .cons "is_record" .bool .refused <|
      .cons "evolution" Evolution.codec .refused <|
      .cons "has_variadic_element" .bool .refused .nil)
    (fun (name, tag, constructorName, baseType, properties, arity, builders, isRecord,
        evolution, hasVariadic, ()) =>
      ⟨name, tag, constructorName, baseType, properties, arity, builders, isRecord, evolution,
        hasVariadic⟩)
    (fun t =>
      (t.name, t.tag, t.constructorName, t.baseType, t.properties, t.arity, t.builders,
        t.isRecord, t.evolution, t.hasVariadic, ()))

/-- The form of a sum. -/
def Sum.codec : Codec Sum :=
  .record "Sum"
    (.cons "name" .string .refused <|
      .cons "tag" .string .refused <|
      .cons "base_type" .string .refused <|
      .cons "variants" (.list Tuple.codec) .refused <|
      .cons "evolution" Evolution.codec .refused .nil)
    (fun (name, tag, baseType, variants, evolution, ()) =>
      ⟨name, tag, baseType, variants, evolution⟩)
    (fun s => (s.name, s.tag, s.baseType, s.variants, s.evolution, ()))

/-- The form of a domain. -/
def Domain.codec : Codec Domain :=
  .record "TypeDomain"
    (.cons "name" .string .refused <|
      .cons "tag" .string .refused <|
      .cons "tuples" (.list Tuple.codec) .refused <|
      .cons "sums" (.list Sum.codec) .refused .nil)
    (fun (name, tag, tuples, sums, ()) => ⟨name, tag, tuples, sums⟩)
    (fun d => (d.name, d.tag, d.tuples, d.sums, ()))

/-- The form of a transform. -/
def Transform.codec : Codec Transform :=
  .record "Transform"
    (.cons "source_domain_difference" Domain.codec .refused <|
      .cons "source_domain_name" .string .refused <|
      .cons "dest_domain_name" .string .refused <|
      .cons "removed_tags" (.list .string) .refused .nil)
    (fun (difference, sourceName, destinationName, removedTags, ()) =>
      ⟨difference, sourceName, destinationName, removedTags⟩)
    (fun t => (t.difference, t.sourceName, t.destinationName, t.removedTags, ()))

/-- The form of a universe. -/
def Universe.codec : Codec Universe :=
  .record "TypeUniverse"
    (.cons "domains" (.list Domain.codec) .refused <|
      .cons "transforms" (.list Transform.codec) .refused .nil)
    (fun (domains, transforms, ()) => ⟨domains, transforms⟩)
    (fun u => (u.domains, u.transforms, ()))

end DomainEvolution

import DomainEvolution.Declaration
import DomainEvolution.Json.Codec

/-!
# The form of declarations

How declarations are written down as JSON. A field with a usual value may be left out, and fields
that nobody knows are passed over.
-/

namespace DomainEvolution

open Json

/-- The form of a cardinality. -/
def Cardinality.codec : Codec Cardinality :=
  .choice [.unit "required" .required, .unit "optional" .optional, .unit "variadic" .variadic]
    fun
    | .required => .string "required"
    | .optional => .string "optional"
    | .variadic => .string "variadic"

/-- The form of the kind of a tuple. -/
def Decl.TupleKind.codec : Codec Decl.TupleKind :=
  .choice [.unit "product" .product, .unit "record" .record]
    fun
    | .product => .string "product"
    | .record => .string "record"

/-- The form of a declared property. -/
def Decl.Property.codec : Codec Decl.Property :=
  .record "PropertyDecl"
    (.cons "tag" .string .refused <|
      .cons "type_name" .string .refused <|
      .cons "cardinality" Cardinality.codec (.allowed .required) .nil)
    (fun (tag, typeName, cardinality, ()) => ⟨tag, typeName, cardinality⟩)
    (fun p => (p.tag, p.typeName, p.cardinality, ()))

/-- The form of a declared tuple. -/
def Decl.Tuple.codec : Codec Decl.Tuple :=
  .record "TupleDecl"
    (.cons "tag" .string .refused <|
      .cons "kind" Decl.TupleKind.codec (.allowed .product) <|
      .cons "properties" (.list Decl.Property.codec) (.allowed []) .nil)
    (fun (tag, kind, properties, ()) => ⟨tag, kind, properties⟩)
    (fun t => (t.tag, t.kind, t.properties, ()))

/-- The form of a declared sum. -/
def Decl.Sum.codec : Codec Decl.Sum :=
  .record "SumDecl"
    (.cons "tag" .string .refused <|
      .cons "variants" (.list Decl.Tuple.codec) .refused .nil)
    (fun (tag, variants, ()) => ⟨tag, variants⟩)
    (fun s => (s.tag, s.variants, ()))

/-- The form of a declared domain. -/
def Decl.Domain.codec : Codec Decl.Domain :=
  .record "DomainDecl"
    (.cons "tag" .string .refused <|
      .cons "tuples" (.list Decl.Tuple.codec) (.allowed []) <|
      .cons "sums" (.list Decl.Sum.codec) (.allowed []) .nil)
    (fun (tag, tuples, sums, ()) => ⟨tag, tuples, sums⟩)
    (fun d => (d.tag, d.tuples, d.sums, ()))

/-- The form of a request for a transform. -/
def Decl.Request.codec : Codec Decl.Request :=
  .record "TransformRequest"
    (.cons "source" .string .refused <|
      .cons "destination" .string .refused .nil)
    (fun (source, destination, ()) => ⟨source, destination⟩)
    (fun r => (r.source, r.destination, ()))

/-- The form of a declared universe. -/
def Decl.Universe.codec : Codec Decl.Universe :=
  .record "UniverseDecl"
    (.cons "domains" (.list Decl.Domain.codec) .refused <|
      .cons "transforms" (.list Decl.Request.codec) (.allowed []) .nil)
    (fun (domains, requests, ()) => ⟨domains, requests⟩)
    (fun u => (u.domains, u.requests, ()))

end DomainEvolution

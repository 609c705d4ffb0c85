import DomainEvolution.Proofs.Rearrangement
import DomainEvolution.Proofs.WellFormedDomain

/-!
# References between the members of a domain

A type name is looked up in names that are generated before any member is synthesized, and the
member is given its identity later, inside its owner. Both lead to one name: a place in the domain
has one name there, under which properties mention the member and by which it is constructed. A
reference therefore always has a target, in the domain itself and in every difference that leads to
it.
-/

namespace DomainEvolution

namespace Primitive

/-- A primitive type is found under its own name and no other. -/
theorem ofTypeName?_eq_some_iff {name : String} {type : Primitive} :
    ofTypeName? name = some type ↔ type.typeName = name := by
  constructor
  · intro h
    simpa using List.find?_some h
  · rintro rfl
    cases type <;> rfl

theorem typeName_injective : Function.Injective typeName := by
  intro first second h
  have hfirst := ofTypeName?_eq_some_iff.mpr h
  exact (Option.some.inj (hfirst.symm.trans (ofTypeName?_eq_some_iff.mpr rfl)))

theorem ofTypeName?_eq_none_iff {name : String} :
    ofTypeName? name = none ↔ ∀ type : Primitive, type.typeName ≠ name := by
  simp only [Option.eq_none_iff_forall_ne_some, ne_eq, ofTypeName?_eq_some_iff]

end Primitive

/-- The name that is generated for a member inside its domain. -/
def Place.localName : Place → String
  | tuple tag => Name.pascal tag
  | sum tag => Name.pascal tag
  | variant owner tag => Name.qualify (Name.pascal owner) (Name.pascal tag)

namespace Domain

/-- What a type name means in a domain: a primitive type before a member, and a member before a type
that is left to others. The last component is the generated name of the type. -/
inductive Means (domain : Domain) : String → TypeRef → String → Prop
  | primitive (type : Primitive) :
      Means domain type.typeName (.primitive type) type.generatedName
  | member {place : Place} (hfree : ∀ type : Primitive, type.typeName ≠ place.tag)
      (hplace : place ∈ domain.places) :
      Means domain place.tag (.domain place.tag) (Name.qualify domain.name place.localName)
  | opaqueType {name : String} (hfree : ∀ type : Primitive, type.typeName ≠ name)
      (hundefined : name ∉ domain.tags) :
      Means domain name (.opaqueType name) (Name.pascal name)

section Means

variable {domain : Domain} {rawType name : String} {ref : TypeRef}
  (h : domain.Means rawType ref name)
include h

theorem Means.eq_primitive_iff {type : Primitive} :
    ref = .primitive type ↔ type.typeName = rawType := by
  cases h with
  | primitive other =>
    rw [TypeRef.primitive.injEq, eq_comm, Primitive.typeName_injective.eq_iff]
  | member hfree _ => simp [hfree type]
  | opaqueType hfree _ => simp [hfree type]

theorem Means.eq_domain_iff {tag : String} : ref = .domain tag ↔
    tag = rawType ∧ (∀ type : Primitive, type.typeName ≠ tag) ∧ tag ∈ domain.tags := by
  cases h with
  | primitive type =>
    refine iff_of_false (by simp) ?_
    rintro ⟨rfl, hfree, -⟩
    exact hfree type rfl
  | @member place hfree hplace =>
    rw [TypeRef.domain.injEq]
    constructor
    · rintro rfl
      exact ⟨rfl, hfree, mem_tags_iff.mpr ⟨place, hplace, rfl⟩⟩
    · rintro ⟨rfl, -, -⟩
      rfl
  | opaqueType _ hundefined =>
    refine iff_of_false (by simp) ?_
    rintro ⟨rfl, -, hdefined⟩
    exact hundefined hdefined

theorem Means.eq_opaqueType_iff {tag : String} : ref = .opaqueType tag ↔
    tag = rawType ∧ (∀ type : Primitive, type.typeName ≠ tag) ∧ tag ∉ domain.tags := by
  cases h with
  | primitive type =>
    refine iff_of_false (by simp) ?_
    rintro ⟨rfl, hfree, -⟩
    exact hfree type rfl
  | @member place _ hplace =>
    refine iff_of_false (by simp) ?_
    rintro ⟨rfl, -, hundefined⟩
    exact hundefined (mem_tags_iff.mpr ⟨place, hplace, rfl⟩)
  | opaqueType hfree hundefined =>
    rw [TypeRef.opaqueType.injEq]
    constructor
    · rintro rfl
      exact ⟨rfl, hfree, hundefined⟩
    · rintro ⟨rfl, -, -⟩
      rfl

end Means

section Names

variable {domain : Domain} {rawType tag name : String}

theorem Means.eq_generatedName {type : Primitive}
    (h : domain.Means rawType (.primitive type) name) : name = type.generatedName := by
  cases h
  rfl

/-- A member is mentioned by the name of its place, qualified by that of its domain. -/
theorem Means.exists_place (h : domain.Means rawType (.domain tag) name) :
    ∃ place ∈ domain.places, place.tag = tag ∧
      name = Name.qualify domain.name place.localName := by
  cases h with
  | @member place _ hplace => exact ⟨place, hplace, rfl, rfl⟩

theorem Means.eq_pascal (h : domain.Means rawType (.opaqueType tag) name) :
    name = Name.pascal tag := by
  cases h
  rfl

end Names

/-- A tuple, a sum or a variant of a domain. -/
inductive Member where
  | tuple (tuple : Tuple)
  | sum (sum : Sum)
  | variant (sum : Sum) (variant : Tuple)

namespace Member

/-- Where the member stands. -/
def place : Member → Place
  | tuple t => .tuple t.tag
  | sum s => .sum s.tag
  | variant s v => .variant s.tag v.tag

/-- Whether a name is the identity of the member: that of its constructor, or for a sum the base
type of its variants, of which there are some. -/
def Identifies (name : String) : Member → Prop
  | tuple t => t.constructorName = name
  | sum s => s.variants ≠ [] ∧ ∀ v ∈ s.variants, v.baseType = name
  | variant _ v => v.constructorName = name

end Member

/-- All members of a domain: its tuples, and then each sum followed by its variants. -/
def members (domain : Domain) : List Member :=
  domain.tuples.map .tuple ++
    domain.sums.flatMap fun sum => .sum sum :: sum.variants.map (.variant sum)

theorem map_place_members (domain : Domain) : domain.members.map Member.place = domain.places := by
  simp [members, places, List.map_flatMap, Member.place, Function.comp_def]

/-- Where tags are unique, one member has the tag of a given one. -/
theorem filter_members_eq_singleton {domain : Domain} (htags : domain.tags.Nodup) {member : Member}
    (h : member ∈ domain.members) :
    domain.members.filter (·.place.tag == member.place.tag) = [member] := by
  rw [← map_tag_places, ← map_place_members, List.map_map] at htags
  exact Clash.filter_key_eq_singleton htags h

/-- How the type of a property is resolved in a domain. -/
structure Resolves (domain : Domain) (property : Property) : Prop where
  primitive : ∀ type, property.typeRef = .primitive type ↔ type.typeName = property.rawType
  member : ∀ tag, property.typeRef = .domain tag ↔
    tag = property.rawType ∧ (∀ type : Primitive, type.typeName ≠ tag) ∧ tag ∈ domain.tags
  opaqueType : ∀ name, property.typeRef = .opaqueType name ↔
    name = property.rawType ∧ (∀ type : Primitive, type.typeName ≠ name) ∧ name ∉ domain.tags
  primitive_name : ∀ type, property.typeRef = .primitive type →
    property.typeName = type.generatedName
  member_name : ∀ tag, property.typeRef = .domain tag →
    ∃ member, domain.members.filter (·.place.tag == tag) = [member] ∧
      member.Identifies property.typeName
  opaqueType_name : ∀ name, property.typeRef = .opaqueType name →
    property.typeName = Name.pascal name

end Domain

namespace Synthesis

/-! ### What type names mean -/

section Scope

variable {scope : Scope} {name : String}

theorem Scope.resolve_primitive (type : Primitive) :
    scope.resolve type.typeName = (.primitive type, type.generatedName) := by
  rw [Scope.resolve, Primitive.ofTypeName?_eq_some_iff.mpr rfl]

theorem Scope.resolve_of_find? (hfree : ∀ type : Primitive, type.typeName ≠ name) {member : Member}
    (hfind : scope.members.find? (·.tag == name) = some member) :
    scope.resolve name = (.domain name, member.name) := by
  rw [Scope.resolve, Primitive.ofTypeName?_eq_none_iff.mpr hfree, hfind]

theorem Scope.resolve_of_find?_eq_none (hfree : ∀ type : Primitive, type.typeName ≠ name)
    (hfind : scope.members.find? (·.tag == name) = none) :
    scope.resolve name = (.opaqueType name, Name.pascal name) := by
  rw [Scope.resolve, Primitive.ofTypeName?_eq_none_iff.mpr hfree, hfind]

end Scope

/-- A tuple is named inside its owner. -/
theorem Scope.tuple_identity {scope : Scope} {owner : String} {decl : Decl.Tuple} {tuple : Tuple}
    (hok : scope.tuple owner decl = .ok tuple) :
    tuple.constructorName = Name.qualify owner (Name.pascal tuple.tag) ∧
      tuple.baseType = owner := by
  obtain ⟨_, _, -, -, rfl⟩ := tuple_eq_ok_iff.mp hok
  exact ⟨rfl, rfl⟩

variable {decl : Decl.Domain} {domain : Domain}

/-- The names inside a declared domain are those of the places that its definitions have. -/
theorem localNames_eq (decl : Decl.Domain) : decl.localNames =
    decl.definitions.map fun definition => (definition.place.tag, definition.place.localName) := by
  simp [Decl.Domain.localNames, Decl.Domain.definitions, List.map_flatMap, Definition.place,
    Place.tag, Place.localName, Decl.Tuple.skeleton, Function.comp_def]

section Synthesized

variable (hok : Domain.synthesize decl = .ok domain)
include hok

/-- The names that are generated for a declaration are those of the places of its model. -/
theorem generatedNames_eq_map_places : decl.generatedNames =
    domain.places.map fun place => (place.tag, Name.qualify domain.name place.localName) := by
  rw [Decl.Domain.generatedNames_eq, localNames_eq, ← definitions_of_synthesize hok,
    ← Domain.map_place_definitions, name_of_synthesize hok, List.map_map, List.map_map]
  rfl

/-- Type names are looked up among the places of the domain. -/
theorem members_perm_places : ((scopeOf decl).members.map fun m => (m.tag, m.name)).Perm
    (domain.places.map fun place => (place.tag, Name.qualify domain.name place.localName)) := by
  rw [← generatedNames_eq_map_places hok]
  exact members_perm decl

/-- A member that is found under a tag stands at a place of the domain. -/
theorem exists_place_of_find?_eq_some {name : String} {member : Member}
    (hfind : (scopeOf decl).members.find? (·.tag == name) = some member) :
    ∃ place ∈ domain.places, place.tag = name ∧
      Name.qualify domain.name place.localName = member.name := by
  have htag : member.tag = name := by simpa using List.find?_some hfind
  have hmember : (member.tag, member.name) ∈ (scopeOf decl).members.map fun m => (m.tag, m.name) :=
    List.mem_map.mpr ⟨member, List.mem_of_find?_eq_some hfind, rfl⟩
  obtain ⟨place, hplace, heq⟩ := List.mem_map.mp ((members_perm_places hok).subset hmember)
  obtain ⟨hplaceTag, hplaceName⟩ := Prod.mk.inj heq
  exact ⟨place, hplace, hplaceTag.trans htag, hplaceName⟩

/-- A tag under which no member is found is not defined. -/
theorem notMem_tags_of_find?_eq_none {name : String}
    (hfind : (scopeOf decl).members.find? (·.tag == name) = none) : name ∉ domain.tags := by
  intro hdefined
  obtain ⟨place, hplace, htag⟩ := Domain.mem_tags_iff.mp hdefined
  obtain ⟨member, hmember, heq⟩ :=
    List.mem_map.mp ((members_perm_places hok).symm.subset (List.mem_map_of_mem hplace))
  have hne := List.find?_eq_none.mp hfind member hmember
  exact hne (beq_iff_eq.mpr ((Prod.mk.inj heq).1.trans htag))

/-- A type name is resolved to what it means in the domain that is synthesized. -/
theorem means_resolve (name : String) :
    domain.Means name ((scopeOf decl).resolve name).1 ((scopeOf decl).resolve name).2 := by
  -- A primitive type is looked for first: a member that has its tag is never reached by name.
  by_cases hprimitive : ∃ type : Primitive, type.typeName = name
  · obtain ⟨type, rfl⟩ := hprimitive
    rw [Scope.resolve_primitive]
    exact .primitive type
  · have hfree : ∀ type : Primitive, type.typeName ≠ name := not_exists.mp hprimitive
    cases hfind : (scopeOf decl).members.find? (·.tag == name) with
    | some member =>
      obtain ⟨place, hplace, rfl, hname⟩ := exists_place_of_find?_eq_some hok hfind
      rw [Scope.resolve_of_find? hfree hfind, ← hname]
      exact .member hfree hplace
    | none =>
      rw [Scope.resolve_of_find?_eq_none hfree hfind]
      exact .opaqueType hfree (notMem_tags_of_find?_eq_none hok hfind)

/-- The type of every property is what its type name means in the domain. -/
theorem means_of_synthesize {tuple : Tuple} (htuple : tuple ∈ domain.allTuples)
    {property : Property} (hproperty : property ∈ tuple.properties) :
    domain.Means property.rawType property.typeRef property.typeName := by
  obtain ⟨owner, source, -, h⟩ := exists_tuple_eq_ok_of_mem hok htuple
  obtain ⟨_, _, -, -, rfl⟩ := Scope.tuple_eq_ok_iff.mp h
  obtain ⟨declared, -, rfl⟩ := List.mem_map.mp hproperty
  exact means_resolve hok declared.typeName

/-! ### The identities of members -/

/-- The identity of a member is the name of its place, qualified by that of its domain. -/
theorem identifies_of_synthesize {member : Domain.Member} (h : member ∈ domain.members) :
    member.Identifies (Name.qualify domain.name member.place.localName) := by
  have hwellFormed := wellFormed_of_synthesize hok
  obtain ⟨-, tuples, sums, htuples, hsums, rfl⟩ := synthesize_eq_ok_iff.mp hok
  rcases List.mem_append.mp h with h | h
  · obtain ⟨tuple, htuple, rfl⟩ := List.mem_map.mp h
    obtain ⟨source, -, hsource⟩ := exists_of_mem_of_mapM_eq_ok htuples htuple
    exact (Scope.tuple_identity (atMember_eq_ok_iff.mp hsource)).1
  · obtain ⟨sum, hsum, h⟩ := List.mem_flatMap.mp h
    obtain ⟨source, -, hsource⟩ := exists_of_mem_of_mapM_eq_ok hsums hsum
    obtain ⟨-, variants, hvariants, rfl⟩ := Scope.sum_eq_ok_iff.mp hsource
    have hidentity {v : Tuple} (hv : v ∈ variants) :
        v.constructorName = Name.qualify ((scopeOf decl).sumOwner source) (Name.pascal v.tag) ∧
          v.baseType = (scopeOf decl).sumOwner source := by
      obtain ⟨variant, -, hvariant⟩ := exists_of_mem_of_mapM_eq_ok hvariants hv
      exact Scope.tuple_identity (atMember_eq_ok_iff.mp hvariant)
    rcases List.mem_cons.mp h with rfl | h
    · exact ⟨hwellFormed.sums _ hsum, fun v hv => (hidentity hv).2⟩
    · obtain ⟨v, hv, rfl⟩ := List.mem_map.mp h
      exact (hidentity hv).1.trans (Name.qualify_assoc _ _ _)

/-- The name under which a property mentions a member is the identity of the one member that has the
tag. -/
theorem exists_member_identifies {place : Place} (hplace : place ∈ domain.places) :
    ∃ member, domain.members.filter (·.place.tag == place.tag) = [member] ∧
      member.Identifies (Name.qualify domain.name place.localName) := by
  rw [← Domain.map_place_members] at hplace
  obtain ⟨member, hmember, rfl⟩ := List.mem_map.mp hplace
  exact ⟨member, Domain.filter_members_eq_singleton (coherent_of_synthesize hok).tags hmember,
    identifies_of_synthesize hok hmember⟩

/-- References agree with the identities of the members they refer to. -/
theorem resolves_of_synthesize {tuple : Tuple} (htuple : tuple ∈ domain.allTuples)
    {property : Property} (hproperty : property ∈ tuple.properties) :
    domain.Resolves property := by
  have hmeans := means_of_synthesize hok htuple hproperty
  refine ⟨fun _ => hmeans.eq_primitive_iff, fun _ => hmeans.eq_domain_iff,
    fun _ => hmeans.eq_opaqueType_iff, fun type href => ?_, fun tag href => ?_,
    fun name href => ?_⟩ <;> rw [href] at hmeans
  · exact hmeans.eq_generatedName
  · obtain ⟨place, hplace, rfl, hname⟩ := hmeans.exists_place
    rw [hname]
    exact exists_member_identifies hok hplace
  · exact hmeans.eq_pascal

/-- Every tag that a tuple refers to is defined. -/
theorem mem_tags_of_mem_referencedTags {tuple : Tuple} (htuple : tuple ∈ domain.allTuples)
    {tag : String} (htag : tag ∈ tuple.referencedTags) : tag ∈ domain.tags := by
  obtain ⟨property, hproperty, href⟩ := List.mem_filterMap.mp htag
  have hdomain : property.typeRef = .domain tag := by
    cases h : property.typeRef <;> simp_all [TypeRef.domainTag?]
  exact ((means_of_synthesize hok htuple hproperty).eq_domain_iff.mp hdomain).2.2

end Synthesized

end Synthesis

namespace Difference

/-- A tag that an emitted member refers to is defined by the destination, and so it is not gone. -/
theorem mem_tags_of_mem_referencedTags_emitted {new : Decl.Domain} {source destination : Domain}
    {transform : Transform} (hsource : source.tags.Nodup)
    (hdestination : Domain.synthesize new = .ok destination)
    (hok : Transform.between source destination = .ok transform) {tuple : Tuple}
    (htuple : tuple ∈ transform.difference.allTuples) {tag : String}
    (htag : tag ∈ tuple.referencedTags) :
    tag ∈ destination.tags ∧ tag ∉ transform.removedTags := by
  have htransform :=
    isTransform_of_between hsource (Synthesis.coherent_of_synthesize hdestination) hok
  obtain ⟨member, hmember, heq⟩ := htransform.emitted tuple htuple
  have hreferenced : tag ∈ member.referencedTags := by
    rw [heq] at htag
    exact htag
  have hdefined := Synthesis.mem_tags_of_mem_referencedTags hdestination hmember hreferenced
  rw [htransform.removed]
  exact ⟨hdefined, by simp [hdefined]⟩

end Difference

/-- **References have their targets.** Every property of a synthesized domain refers to what its
type name means there, under the identity that the member has been given; the tags that tuples refer
to are defined; and so are those that members refer to in a difference leading to the domain, none
of which is gone. -/
theorem Domain.resolves_and_referencedTags_of_synthesize {new : Decl.Domain}
    {destination : Domain} (hdestination : Domain.synthesize new = .ok destination) :
    (∀ tuple ∈ destination.allTuples, ∀ property ∈ tuple.properties,
      destination.Resolves property) ∧
    (∀ tuple ∈ destination.allTuples, ∀ tag ∈ tuple.referencedTags, tag ∈ destination.tags) ∧
    ∀ old source transform, Domain.synthesize old = .ok source →
      Transform.between source destination = .ok transform →
      ∀ tuple ∈ transform.difference.allTuples, ∀ tag ∈ tuple.referencedTags,
        tag ∈ destination.tags ∧ tag ∉ transform.removedTags := by
  refine ⟨fun _ htuple _ => Synthesis.resolves_of_synthesize hdestination htuple,
    fun _ htuple _ => Synthesis.mem_tags_of_mem_referencedTags hdestination htuple, ?_⟩
  intro old source transform hsource hok tuple htuple tag htag
  exact Difference.mem_tags_of_mem_referencedTags_emitted
    (Synthesis.coherent_of_synthesize hsource).tags hdestination hok htuple htag

/-- A domain of which only one tuple is left in the next version. -/
def beforeReferences : Decl.Domain where
  tag := "v1"
  tuples := [⟨"int", .product, []⟩, ⟨"gone", .product, []⟩]

/-- A domain whose references lead forward, back to their own sum and outside; one of its tuples has
the tag of a primitive type. -/
def afterReferences : Decl.Domain where
  tag := "v2"
  tuples := [⟨"int", .product, []⟩, ⟨"pair", .record, [⟨"first", "expr", .required⟩,
    ⟨"second", "node", .required⟩, ⟨"note", "remark", .optional⟩]⟩]
  sums := [⟨"expr", [⟨"leaf", .product, [⟨"value", "int", .required⟩]⟩,
    ⟨"node", .product, [⟨"parts", "expr", .variadic⟩]⟩]⟩]

theorem Domain.resolves_and_referencedTags_of_synthesize_afterReferences :
    ∃ source destination transform, Domain.synthesize beforeReferences = .ok source ∧
      Domain.synthesize afterReferences = .ok destination ∧
      Transform.between source destination = .ok transform ∧
      destination.allTuples.flatMap (·.properties.map (·.typeName)) =
        ["V2.Expr", "V2.Expr.Node", "Remark", "LongPrimitive", "V2.Expr"] ∧
      (∀ tuple ∈ destination.allTuples, ∀ property ∈ tuple.properties,
        destination.Resolves property) ∧
      (∀ tuple ∈ destination.allTuples, ∀ tag ∈ tuple.referencedTags, tag ∈ destination.tags) ∧
      transform.difference.allTuples.flatMap (·.referencedTags) = ["expr", "node", "expr"] ∧
      ∀ tuple ∈ transform.difference.allTuples, ∀ tag ∈ tuple.referencedTags,
        tag ∈ destination.tags ∧ tag ∉ transform.removedTags := by
  obtain ⟨source, destination, transform, hsource, hdestination, hok, hnames, htags⟩ :
      ∃ source destination transform, Domain.synthesize beforeReferences = .ok source ∧
        Domain.synthesize afterReferences = .ok destination ∧
        Transform.between source destination = .ok transform ∧
        destination.allTuples.flatMap (·.properties.map (·.typeName)) =
          ["V2.Expr", "V2.Expr.Node", "Remark", "LongPrimitive", "V2.Expr"] ∧
        transform.difference.allTuples.flatMap (·.referencedTags) = ["expr", "node", "expr"] :=
    ⟨_, _, _, rfl, rfl, rfl, rfl, rfl⟩
  obtain ⟨hresolves, hdefined, hemitted⟩ :=
    Domain.resolves_and_referencedTags_of_synthesize hdestination
  exact ⟨source, destination, transform, hsource, hdestination, hok, hnames, hresolves, hdefined,
    htags, hemitted beforeReferences source transform hsource hok⟩

end DomainEvolution

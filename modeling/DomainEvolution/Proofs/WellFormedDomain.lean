import DomainEvolution.Proofs.DerivedFields
import Mathlib.Data.List.Flatten

/-!
# Well-formed domains

What a renderer may rely on: members can be told apart by tag, tuples by constructor, and every
tuple has the arity and the builders that its properties call for. Synthesis establishes all of it.
-/

namespace DomainEvolution

namespace Property

/-- A property whose flags agree with each other and with its hook. -/
structure WellFormed (property : Property) : Prop where
  flags : ¬ (property.isNullable = true ∧ property.isVariadic = true)
  hook : property.hook.cardinality = property.cardinality

end Property

namespace Shape

/-- An arity is unbounded exactly when some property is variadic. -/
theorem isUnbounded_eq_any {properties : List Property} {result : Arity}
    (hok : arity properties = .ok result) :
    result.isUnbounded = properties.any (·.isVariadic) := by
  obtain ⟨required, optional, variadic, h, rfl⟩ := exists_parts_of_arity_eq_ok hok
  rw [h.any_isVariadic, arityOf, Arity.isUnbounded]
  by_cases hvariadic : variadic.length = 0
  · simp [hvariadic]
  · simp [hvariadic]

/-- Some property of an accepted shape is variadic exactly when the last one is. -/
theorem any_isVariadic_iff_getLast? {properties : List Property} {result : Arity}
    (hok : arity properties = .ok result) :
    properties.any (·.isVariadic) = true ↔
      ∃ last ∈ properties.getLast?, last.isVariadic = true := by
  obtain ⟨required, optional, variadic, h, -⟩ := exists_parts_of_arity_eq_ok hok
  constructor
  · intro hany
    cases hlast : properties.getLast? with
    | none =>
      rw [List.getLast?_eq_none_iff.mp hlast] at hany
      cases hany
    | some last => exact ⟨last, rfl, by rw [h.isVariadic_getLast hlast, ← h.any_isVariadic, hany]⟩
  · rintro ⟨last, hlast, hvariadic⟩
    rwa [h.isVariadic_getLast hlast, ← h.any_isVariadic] at hvariadic

end Shape

namespace Tuple

/-- A tuple whose properties have tags and names of their own and stand in legal order, and whose
derived fields are those that its properties call for. -/
structure WellFormed (tuple : Tuple) : Prop where
  tags : (tuple.properties.map (·.tag)).Nodup
  names : (tuple.properties.map (·.name)).Nodup
  properties : ∀ property ∈ tuple.properties, property.WellFormed
  shape : Shape.Legal (tuple.properties.map (·.cardinality))
  arity : Shape.arity tuple.properties = .ok tuple.arity
  builders : Overload.builders tuple = .ok tuple.builders
  hasVariadic : tuple.hasVariadic = true ↔ tuple.arity.isUnbounded = true
  unbounded : tuple.arity.isUnbounded = true ↔
    ∃ last ∈ tuple.properties.getLast?, last.isVariadic = true

/-- Up-to-date fields vouch for the shape and the names of the properties. -/
theorem Derived.wellFormed {tuple : Tuple} (h : tuple.Derived)
    (hproperties : ∀ property ∈ tuple.properties, property.WellFormed) : tuple.WellFormed where
  tags := (Overload.builders_eq_ok_iff.mp h.builders).1.tags
  names := (Overload.builders_eq_ok_iff.mp h.builders).1.names
  properties := hproperties
  shape := Shape.exists_arity_eq_ok_iff.mp ⟨tuple.arity, h.arity⟩
  arity := h.arity
  builders := h.builders
  hasVariadic := by rw [h.hasVariadic, Shape.isUnbounded_eq_any h.arity]
  unbounded := by
    rw [Shape.isUnbounded_eq_any h.arity]
    exact Shape.any_isVariadic_iff_getLast? h.arity

theorem WellFormed.derived {tuple : Tuple} (h : tuple.WellFormed) : tuple.Derived where
  arity := h.arity
  builders := h.builders
  hasVariadic := by rw [Bool.eq_iff_iff, h.hasVariadic, Shape.isUnbounded_eq_any h.arity]

/-- Whether a tuple is well formed does not depend on its evolution. -/
theorem WellFormed.withEvolution {tuple : Tuple} (h : tuple.WellFormed) (evolution : Evolution) :
    (tuple.withEvolution evolution).WellFormed :=
  ⟨h.tags, h.names, h.properties, h.shape, h.arity, h.builders, h.hasVariadic, h.unbounded⟩

end Tuple

/-- A domain whose members have tags of their own, whose tuples and variants have constructors of
their own, whose sums have variants, and whose tuples and variants are well formed. -/
structure Domain.WellFormed (domain : Domain) : Prop where
  tags : domain.tags.Nodup
  constructors : (domain.allTuples.map (·.constructorName)).Nodup
  sums : ∀ sum ∈ domain.sums, sum.variants ≠ []
  tuples : ∀ tuple ∈ domain.allTuples, tuple.WellFormed

theorem Domain.WellFormed.coherent {domain : Domain} (h : domain.WellFormed) : domain.Coherent where
  tags := h.tags
  derived tuple htuple := (h.tuples tuple htuple).derived

namespace Synthesis

/-- A property never has both flags, and its hook has the cardinality that was declared. -/
theorem Scope.property_wellFormed (scope : Scope) (decl : Decl.Property) :
    (scope.property decl).WellFormed where
  flags := by
    change ¬ ((decl.cardinality == .optional) = true ∧ (decl.cardinality == .variadic) = true)
    cases decl.cardinality <;> decide
  hook := (property_cardinality decl).symm

theorem Scope.tuple_wellFormed {scope : Scope} {owner : String} {decl : Decl.Tuple} {tuple : Tuple}
    (hok : scope.tuple owner decl = .ok tuple) : tuple.WellFormed := by
  refine (tuple_derived hok).2.wellFormed ?_
  obtain ⟨_, _, _, _, rfl⟩ := tuple_eq_ok_iff.mp hok
  exact List.forall_mem_map.mpr fun property _ => scope.property_wellFormed property

/-- A constructor is named after its tuple, inside its owner. -/
theorem Scope.tuple_constructorName {scope : Scope} {owner : String} {decl : Decl.Tuple}
    {tuple : Tuple} (hok : scope.tuple owner decl = .ok tuple) :
    tuple.constructorName = Name.qualify owner (Name.pascal decl.tag) := by
  obtain ⟨_, _, _, _, rfl⟩ := tuple_eq_ok_iff.mp hok
  rfl

theorem Scope.sum_constructorNames {scope : Scope} {domain : String} {decl : Decl.Sum} {sum : Sum}
    (hok : scope.sum domain decl = .ok sum) :
    sum.variants.map (·.constructorName) =
      decl.variants.map fun v => Name.qualify (scope.sumOwner decl) (Name.pascal v.tag) := by
  obtain ⟨_, variants, hvariants, rfl⟩ := sum_eq_ok_iff.mp hok
  refine map_eq_map_of_mapM_eq_ok (fun v _ tuple htuple => ?_) hvariants
  exact tuple_constructorName (atMember_eq_ok_iff.mp htuple)

/-- The constructors of a synthesized domain are among its generated names, in the same order. -/
theorem constructorNames_sublist {decl : Decl.Domain} {domain : Domain}
    (hok : Domain.synthesize decl = .ok domain) :
    (domain.allTuples.map (·.constructorName)).Sublist (decl.generatedNames.map (·.2)) := by
  obtain ⟨_, tuples, sums, htuples, hsums, rfl⟩ := synthesize_eq_ok_iff.mp hok
  have htupleNames : tuples.map (·.constructorName) =
      decl.tuples.map fun t => Name.qualify (Name.pascal decl.tag) (Name.pascal t.tag) :=
    map_eq_map_of_mapM_eq_ok
      (fun _ _ _ h => Scope.tuple_constructorName (atMember_eq_ok_iff.mp h)) htuples
  have hsumNames : sums.map (fun sum => sum.variants.map (·.constructorName)) =
      decl.sums.map fun sum => sum.variants.map fun v =>
        Name.qualify ((scopeOf decl).sumOwner sum) (Name.pascal v.tag) :=
    map_eq_map_of_mapM_eq_ok (fun _ _ _ h => Scope.sum_constructorNames h) hsums
  have hnames : (tuples ++ sums.flatMap (·.variants)).map (·.constructorName) =
      (decl.tuples.map fun t => Name.qualify (Name.pascal decl.tag) (Name.pascal t.tag)) ++
        decl.sums.flatMap fun sum => sum.variants.map fun v =>
          Name.qualify ((scopeOf decl).sumOwner sum) (Name.pascal v.tag) := by
    rw [List.map_append, htupleNames, List.map_flatMap, List.flatMap_def, hsumNames,
      ← List.flatMap_def]
  rw [Domain.allTuples, hnames, Decl.Domain.generatedNames, List.map_append, List.map_map,
    List.map_flatMap]
  refine List.Sublist.append (.refl _) (List.Sublist.flatMap_right _ fun sum _ => ?_)
  rw [List.map_cons, List.map_map]
  exact List.sublist_cons_self _ _

/-- A synthesized domain is well formed. -/
theorem wellFormed_of_synthesize {decl : Decl.Domain} {domain : Domain}
    (hok : Domain.synthesize decl = .ok domain) : domain.WellFormed where
  tags := (coherent_of_synthesize hok).tags
  constructors :=
    (exists_synthesize_eq_ok_iff.mp ⟨domain, hok⟩).names.sublist (constructorNames_sublist hok)
  sums := by
    obtain ⟨_, _, sums, _, hsums, rfl⟩ := synthesize_eq_ok_iff.mp hok
    intro sum hsum
    obtain ⟨_, _, h⟩ := exists_of_mem_of_mapM_eq_ok hsums hsum
    obtain ⟨hne, variants, hvariants, rfl⟩ := Scope.sum_eq_ok_iff.mp h
    have hlength := (mapM_eq_ok_iff.mp hvariants).length_eq
    change variants ≠ []
    rwa [← List.length_pos_iff, ← hlength, List.length_pos_iff]
  tuples tuple htuple := by
    obtain ⟨_, _, _, h⟩ := exists_tuple_eq_ok_of_mem hok htuple
    exact Scope.tuple_wellFormed h

end Synthesis

end DomainEvolution

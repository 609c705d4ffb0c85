import DomainEvolution.Difference
import DomainEvolution.Proofs.LegalDeclaration

/-!
# Derived fields

The arity and the builders of a tuple follow from its other fields. In a synthesized domain they are
up to date, so deriving them anew changes nothing; and the tags of such a domain are its own.
-/

namespace DomainEvolution

namespace Tuple

/-- The fields that follow from the properties are up to date. -/
structure Derived (tuple : Tuple) : Prop where
  arity : Shape.arity tuple.properties = .ok tuple.arity
  builders : Overload.builders tuple = .ok tuple.builders
  hasVariadic : tuple.hasVariadic = tuple.properties.any (·.isVariadic)

/-- The tuple with another evolution. -/
def withEvolution (tuple : Tuple) (evolution : Evolution) : Tuple :=
  { tuple with evolution := evolution }

@[simp] theorem tag_withEvolution (tuple : Tuple) (evolution : Evolution) :
    (tuple.withEvolution evolution).tag = tuple.tag := rfl

@[simp] theorem evolution_withEvolution (tuple : Tuple) (evolution : Evolution) :
    (tuple.withEvolution evolution).evolution = evolution := rfl

@[simp] theorem skeleton_withEvolution (tuple : Tuple) (evolution : Evolution) :
    (tuple.withEvolution evolution).skeleton = tuple.skeleton := rfl

/-- Deriving fields anew that are up to date changes the evolution alone. -/
theorem Derived.refresh {tuple : Tuple} (h : tuple.Derived) (evolution : Evolution) :
    tuple.refresh evolution = .ok (tuple.withEvolution evolution) := by
  refine bind_eq_ok_iff.mpr ⟨_, h.arity, bind_eq_ok_iff.mpr ⟨_, h.builders, ?_⟩⟩
  rw [← h.hasVariadic]
  rfl

end Tuple

/-- A domain whose members have tags of their own and whose tuples are up to date. -/
structure Domain.Coherent (domain : Domain) : Prop where
  tags : domain.tags.Nodup
  derived : ∀ tuple ∈ domain.allTuples, tuple.Derived

namespace Synthesis

/-- A tuple keeps the tag under which it is declared, and its derived fields are up to date. -/
theorem Scope.tuple_derived {scope : Scope} {owner : String} {decl : Decl.Tuple} {tuple : Tuple}
    (hok : scope.tuple owner decl = .ok tuple) : tuple.tag = decl.tag ∧ tuple.Derived := by
  obtain ⟨arity, builders, harity, hbuilders, rfl⟩ := tuple_eq_ok_iff.mp hok
  exact ⟨rfl, harity, hbuilders, rfl⟩

/-- The tags of a synthesized sum and of its variants are those that are declared. -/
theorem Scope.sum_tags {scope : Scope} {domain : String} {decl : Decl.Sum} {sum : Sum}
    (hok : scope.sum domain decl = .ok sum) :
    sum.tag :: sum.variants.map (·.tag) = decl.tag :: decl.variants.map (·.tag) := by
  obtain ⟨_, variants, hvariants, rfl⟩ := sum_eq_ok_iff.mp hok
  refine congrArg (decl.tag :: ·) (map_eq_map_of_mapM_eq_ok (fun v _ tuple htuple => ?_) hvariants)
  exact (tuple_derived (atMember_eq_ok_iff.mp htuple)).1

/-- The tags of a synthesized domain are those that are declared. -/
theorem tags_of_synthesize {decl : Decl.Domain} {domain : Domain}
    (hok : Domain.synthesize decl = .ok domain) :
    domain.tags = decl.generatedNames.map (·.1) := by
  obtain ⟨_, tuples, sums, htuples, hsums, rfl⟩ := synthesize_eq_ok_iff.mp hok
  have htupleTags : tuples.map (·.tag) = decl.tuples.map (·.tag) :=
    map_eq_map_of_mapM_eq_ok
      (fun _ _ _ h => (Scope.tuple_derived (atMember_eq_ok_iff.mp h)).1) htuples
  have hsumTags : sums.map (fun sum => sum.tag :: sum.variants.map (·.tag)) =
      decl.sums.map (fun sum => sum.tag :: sum.variants.map (·.tag)) :=
    map_eq_map_of_mapM_eq_ok (fun _ _ _ h => Scope.sum_tags h) hsums
  rw [Domain.tags, htupleTags, List.flatMap_def, hsumTags, ← List.flatMap_def]
  simp [Decl.Domain.generatedNames, List.map_flatMap, Function.comp_def]

/-- A synthesized domain has the name that its tag generates. -/
theorem name_of_synthesize {decl : Decl.Domain} {domain : Domain}
    (hok : Domain.synthesize decl = .ok domain) : domain.name = Name.pascal decl.tag := by
  obtain ⟨_, tuples, sums, _, _, rfl⟩ := synthesize_eq_ok_iff.mp hok
  rfl

/-- Every tuple and variant of a synthesized domain is the synthesis of a declared tuple. -/
theorem exists_tuple_eq_ok_of_mem {decl : Decl.Domain} {domain : Domain}
    (hok : Domain.synthesize decl = .ok domain) {tuple : Tuple} (h : tuple ∈ domain.allTuples) :
    ∃ owner, ∃ source ∈ decl.allTuples, (scopeOf decl).tuple owner source = .ok tuple := by
  obtain ⟨_, tuples, sums, htuples, hsums, rfl⟩ := synthesize_eq_ok_iff.mp hok
  rcases List.mem_append.mp h with htuple | hvariant
  · obtain ⟨source, hsource, h⟩ := exists_of_mem_of_mapM_eq_ok htuples htuple
    exact ⟨_, source, List.mem_append_left _ hsource, atMember_eq_ok_iff.mp h⟩
  · obtain ⟨sum, hsum, hv⟩ := List.mem_flatMap.mp hvariant
    obtain ⟨sumDecl, hsumDecl, h⟩ := exists_of_mem_of_mapM_eq_ok hsums hsum
    obtain ⟨_, variants, hvariants, rfl⟩ := Scope.sum_eq_ok_iff.mp h
    obtain ⟨source, hsource, h⟩ := exists_of_mem_of_mapM_eq_ok hvariants hv
    exact ⟨_, source, List.mem_append_right _ (List.mem_flatMap.mpr ⟨sumDecl, hsumDecl, hsource⟩),
      atMember_eq_ok_iff.mp h⟩

/-- A synthesized domain is coherent. -/
theorem coherent_of_synthesize {decl : Decl.Domain} {domain : Domain}
    (hok : Domain.synthesize decl = .ok domain) : domain.Coherent where
  tags := by
    rw [tags_of_synthesize hok]
    exact (exists_synthesize_eq_ok_iff.mp ⟨domain, hok⟩).tags
  derived tuple htuple := by
    obtain ⟨_, _, _, h⟩ := exists_tuple_eq_ok_of_mem hok htuple
    exact (Scope.tuple_derived h).2

end Synthesis

end DomainEvolution

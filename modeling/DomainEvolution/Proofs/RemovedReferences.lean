import DomainEvolution.Proofs.DifferenceFaults
import DomainEvolution.Proofs.TypeReferences

/-!
# References to removed members

A difference is refused if an emitted member still mentions a tag that is gone. What a type name
means is settled by the destination, though, and there a primitive type comes before every member:
a property of a primitive type is taken for a reference to a member of the source if that member had
the tag of the primitive type. In every other case the property refers to a type that the source
defines and the destination leaves to others.
-/

namespace DomainEvolution.Difference

/-- Whether a property refers to a type that the source defines and the destination does not. -/
def RefersToGone (source destination : Domain) (property : Property) : Prop :=
  ∃ name, property.typeRef = .opaqueType name ∧ Gone source destination name

/-- Whether a property has a primitive type under whose name a member of the source is gone. -/
def ShadowsGone (source destination : Domain) (property : Property) : Prop :=
  ∃ type : Primitive, property.typeRef = .primitive type ∧ Gone source destination type.typeName

/-- A difference is refused exactly if some emitted member has a property of a certain kind, and
then for such a property. -/
structure RefusedFor (source destination : Domain) (kind : Property → Prop) : Prop where
  refusal : ∀ e, Transform.between source destination = .error e →
    ∃ m ∈ selected source destination, ∃ property ∈ m.2.properties, kind property ∧
      e = .removedTagReferenced source.tag destination.tag m.1 property.tag property.rawType
  refused_iff : (∃ e, Transform.between source destination = .error e) ↔
    ∃ m ∈ selected source destination, ∃ property ∈ m.2.properties, kind property

/-- Kinds that agree on the properties of emitted members account for the same refusals. -/
theorem RefusedFor.congr {source destination : Domain} {kind other : Property → Prop}
    (h : RefusedFor source destination kind)
    (hiff : ∀ m ∈ selected source destination, ∀ property ∈ m.2.properties,
      (kind property ↔ other property)) : RefusedFor source destination other where
  refusal e herror := by
    obtain ⟨m, hm, property, hproperty, hkind, heq⟩ := h.refusal e herror
    exact ⟨m, hm, property, hproperty, (hiff m hm property hproperty).mp hkind, heq⟩
  refused_iff := by
    rw [h.refused_iff]
    constructor
    · rintro ⟨m, hm, property, hproperty, hkind⟩
      exact ⟨m, hm, property, hproperty, (hiff m hm property hproperty).mp hkind⟩
    · rintro ⟨m, hm, property, hproperty, hkind⟩
      exact ⟨m, hm, property, hproperty, (hiff m hm property hproperty).mpr hkind⟩

/-- Only tuples and variants of the destination are selected. -/
theorem mem_allTuples_of_mem_selected {source destination : Domain} {m : String × Tuple}
    (h : m ∈ selected source destination) : m.2 ∈ destination.allTuples := by
  rcases List.mem_append.mp h with h | h
  · obtain ⟨tuple, htuple, rfl⟩ := List.mem_map.mp h
    exact List.mem_append_left _ (List.mem_of_mem_filter htuple)
  · obtain ⟨sum, hsum, h⟩ := List.mem_flatMap.mp h
    obtain ⟨v, hv, rfl⟩ := List.mem_map.mp h
    exact List.mem_append_right _
      (List.mem_flatMap.mpr ⟨sum, hsum, List.mem_of_mem_filter hv⟩)

/-- Selected members of a coherent domain are constructible. -/
theorem constructible_of_mem_selected {source destination : Domain}
    (hdestination : destination.Coherent) {m : String × Tuple}
    (h : m ∈ selected source destination) : m.2.Constructible :=
  Tuple.exists_refresh_eq_ok_iff.mp
    ⟨_, (hdestination.derived m.2 (mem_allTuples_of_mem_selected h)).refresh .inherited⟩

/-- A difference that leads to a coherent domain is refused for type names that are gone. -/
theorem refusedFor_gone {source destination : Domain} (hdestination : destination.Coherent) :
    RefusedFor source destination fun property => Gone source destination property.rawType where
  refusal e herror := by
    -- A shape cannot be at fault: what is selected is up to date in the destination already.
    cases between_eq_error_iff.mp herror with
    | @invalidShape before after member tuple reason hsplit _ hfault =>
      have hmem : (member, tuple) ∈ selected source destination := by
        rw [hsplit]
        exact List.mem_append_right _ List.mem_cons_self
      exact absurd (constructible_of_mem_selected hdestination hmem)
        (Tuple.exists_hasFault_iff.mp ⟨reason, hfault⟩)
    | @removedTagReferenced _ _ member tuple _ _ property _ hsplit _ hproperties _ hgone =>
      refine ⟨(member, tuple), ?_, property, ?_, hgone, rfl⟩
      · rw [hsplit]
        exact List.mem_append_right _ List.mem_cons_self
      · rw [hproperties]
        exact List.mem_append_right _ List.mem_cons_self
  refused_iff := by
    rw [exists_eq_error_iff, exists_between_eq_ok_iff,
      and_iff_right fun m hm => constructible_of_mem_selected hdestination hm]
    simp only [not_forall, not_not, exists_prop]

section Synthesized

variable {new : Decl.Domain} {source destination : Domain}
  (hdestination : Domain.synthesize new = .ok destination)
include hdestination

/-- A type name that is gone is that of a type left to others, or of a primitive type. -/
theorem gone_rawType_iff {tuple : Tuple} (htuple : tuple ∈ destination.allTuples)
    {property : Property} (hproperty : property ∈ tuple.properties) :
    Gone source destination property.rawType ↔
      RefersToGone source destination property ∨ ShadowsGone source destination property := by
  have hmeans := Synthesis.means_of_synthesize hdestination htuple hproperty
  constructor
  · intro hgone
    cases href : property.typeRef with
    | primitive type =>
      refine Or.inr ⟨type, href, ?_⟩
      rwa [hmeans.eq_primitive_iff.mp href]
    | domain tag =>
      obtain ⟨rfl, -, hdefined⟩ := hmeans.eq_domain_iff.mp href
      exact absurd hdefined hgone.2
    | opaqueType name =>
      refine Or.inl ⟨name, href, ?_⟩
      rwa [(hmeans.eq_opaqueType_iff.mp href).1]
  · rintro (⟨name, href, hgone⟩ | ⟨type, href, hgone⟩)
    · rwa [← (hmeans.eq_opaqueType_iff.mp href).1]
    · rwa [← hmeans.eq_primitive_iff.mp href]

end Synthesized

/-- **What a difference is refused for.** A difference that leads to a synthesized domain is refused
exactly if an emitted member refers to a type that the source defines and the destination does not,
or has a primitive type under whose name a member of the source is gone. Where no emitted member has
such a primitive type, only references count. -/
theorem between_refusedFor_gone_or_shadowed {new : Decl.Domain} {source destination : Domain}
    (hdestination : Domain.synthesize new = .ok destination) :
    RefusedFor source destination (fun property =>
      RefersToGone source destination property ∨ ShadowsGone source destination property) ∧
    ((∀ m ∈ selected source destination, ∀ property ∈ m.2.properties,
        ¬ ShadowsGone source destination property) →
      RefusedFor source destination (RefersToGone source destination)) := by
  have hrefused : RefusedFor source destination (fun property =>
      RefersToGone source destination property ∨ ShadowsGone source destination property) :=
    (refusedFor_gone (Synthesis.coherent_of_synthesize hdestination)).congr fun _ hm _ hproperty =>
      gone_rawType_iff hdestination (mem_allTuples_of_mem_selected hm) hproperty
  exact ⟨hrefused, fun hnone => hrefused.congr fun m hm property hproperty =>
    or_iff_left (hnone m hm property hproperty)⟩

/-- A domain with a tuple and a pair of symbols. -/
def beforeRemoval : Decl.Domain where
  tag := "v1"
  tuples := [⟨"lit", .product, []⟩, ⟨"pair", .product, [⟨"first", "symbol", .required⟩]⟩]

/-- The domain without the tuple, to which the pair now refers. -/
def afterRemoval : Decl.Domain where
  tag := "v2"
  tuples := [⟨"pair", .product, [⟨"first", "lit", .required⟩, ⟨"second", "int", .required⟩]⟩]

theorem between_refusedFor_gone_or_shadowed_removal : ∃ source destination,
    Domain.synthesize beforeRemoval = .ok source ∧
      Domain.synthesize afterRemoval = .ok destination ∧
      (∃ e, Transform.between source destination = .error e) ∧
      (∀ m ∈ selected source destination, ∀ property ∈ m.2.properties,
        ¬ ShadowsGone source destination property) ∧
      RefusedFor source destination (RefersToGone source destination) := by
  obtain ⟨source, destination, hsource, hdestination, herror, htags⟩ :
      ∃ source destination, Domain.synthesize beforeRemoval = .ok source ∧
        Domain.synthesize afterRemoval = .ok destination ∧
        (∃ e, Transform.between source destination = .error e) ∧
        source.tags = ["lit", "pair"] :=
    ⟨_, _, rfl, rfl, ⟨_, rfl⟩, rfl⟩
  have hnone (property : Property) : ¬ ShadowsGone source destination property := by
    rintro ⟨type, -, hgone, -⟩
    rw [htags] at hgone
    cases type <;> exact absurd hgone (by decide)
  exact ⟨source, destination, hsource, hdestination, herror, fun _ _ property _ => hnone property,
    (between_refusedFor_gone_or_shadowed hdestination).2 fun _ _ property _ => hnone property⟩

/-- A domain with a tuple that has the tag of a primitive type. -/
def beforeShadowing : Decl.Domain where
  tag := "v1"
  tuples := [⟨"int", .product, []⟩, ⟨"wrapper", .product, [⟨"inner", "symbol", .required⟩]⟩]

/-- The domain without that tuple, and with a property of the primitive type. -/
def afterShadowing : Decl.Domain where
  tag := "v2"
  tuples := [⟨"wrapper", .product, [⟨"inner", "int", .required⟩]⟩]

/-- The difference is refused for a property of a primitive type, while none refers to a type that
is gone. -/
theorem exists_between_shadowing_not_refusedFor : ∃ source destination wrapper inner,
    Domain.synthesize beforeShadowing = .ok source ∧
      Domain.synthesize afterShadowing = .ok destination ∧
      selected source destination = [("wrapper", wrapper)] ∧ wrapper.properties = [inner] ∧
      inner.typeRef = .primitive .int ∧
      Transform.between source destination =
        .error (.removedTagReferenced "v1" "v2" "wrapper" inner.tag "int") ∧
      ¬ RefusedFor source destination (RefersToGone source destination) := by
  obtain ⟨source, destination, wrapper, inner, hsource, hdestination, hselected, hproperties, href,
      herror⟩ : ∃ source destination wrapper inner,
      Domain.synthesize beforeShadowing = .ok source ∧
        Domain.synthesize afterShadowing = .ok destination ∧
        selected source destination = [("wrapper", wrapper)] ∧ wrapper.properties = [inner] ∧
        inner.typeRef = .primitive .int ∧
        Transform.between source destination =
          .error (.removedTagReferenced "v1" "v2" "wrapper" inner.tag "int") :=
    ⟨_, _, _, _, rfl, rfl, rfl, rfl, rfl, rfl⟩
  refine ⟨source, destination, wrapper, inner, hsource, hdestination, hselected, hproperties, href,
    herror, fun hrefused => ?_⟩
  obtain ⟨m, hm, property, hproperty, ⟨name, hopaque, -⟩, -⟩ := hrefused.refusal _ herror
  rw [hselected, List.mem_singleton] at hm
  subst hm
  rw [hproperties, List.mem_singleton] at hproperty
  subst hproperty
  rw [href] at hopaque
  cases hopaque

end DomainEvolution.Difference

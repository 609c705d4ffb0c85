import DomainEvolution.Proofs.DestinationDetermined

/-!
# Unchanged members

Two domains that define the same members have an empty difference, whatever the order and the
generated names of the members: each tuple and each sum has its counterpart, no tag is gone, and so
nothing can refer to a tag that is gone.
-/

namespace DomainEvolution

/-- Whether there is nothing to transform from one domain to another, and nothing lost. -/
def Domain.Unchanged (source destination : Domain) : Prop :=
  ∃ transform, Transform.between source destination = .ok transform ∧
    transform.difference.isEmpty = true ∧ transform.removedTags = []

namespace Difference

/-- Nothing can refer to a removed tag if there is none. -/
theorem removedReference?_nil (difference : Domain) : removedReference? [] difference = none := by
  rw [removedReference?, List.findSome?_eq_none_iff]
  rintro ⟨member, tuple⟩ -
  simp

section SameMembers

variable {source destination : Domain} (h : destination.SameMembers source)
include h

/-- Every tuple has its counterpart, so that none is emitted. -/
theorem tuplesSince_of_sameMembers : tuplesSince source destination = [] := by
  rw [tuplesSince, List.map_eq_nil_iff, List.filter_eq_nil_iff]
  intro tuple htuple
  obtain ⟨old, hold, -, hsame⟩ := h.tuples tuple htuple
  have hhas : source.HasTuple tuple := ⟨old, hold, Tuple.sameStructure_symm hsame⟩
  simpa using hhas

/-- Every sum has its counterpart, with all its variants, so that none is emitted. -/
theorem sumSince?_of_sameMembers {sum : Sum} (hsum : sum ∈ destination.sums) :
    sumSince? source sum = none := by
  obtain ⟨old, hold, htag, htags, hvariants⟩ := h.sums sum hsum
  refine if_pos ⟨old, hold, htag.symm, ⟨htags.2, htags.1⟩, fun v hv => ?_⟩
  obtain ⟨w, hw, hwtag⟩ := List.mem_map.mp (htags.2 (List.mem_map_of_mem hv))
  exact ⟨w, hw, Tuple.sameStructure_symm (hvariants w hw v hv hwtag)⟩

theorem removedTags_of_sameMembers : removedTags source destination = [] := by
  rw [removedTags, List.filter_eq_nil_iff]
  intro tag htag
  obtain ⟨place, hplace, rfl⟩ := Domain.mem_tags_iff.mp htag
  have hkept : place.tag ∈ destination.tags :=
    Domain.mem_tags_iff.mpr ⟨place, (h.places place).mpr hplace, rfl⟩
  simpa using hkept

/-- Between domains with the same members there is nothing to transform. -/
theorem unchanged_of_sameMembers (hsource : source.tags.Nodup)
    (hdestination : destination.Coherent) : source.Unchanged destination := by
  have hsums : destination.sums.filterMap (sumSince? source) = [] :=
    List.filterMap_eq_nil_iff.mpr fun _ hsum => sumSince?_of_sameMembers h hsum
  have hempty : (domainSince source destination).isEmpty = true := by
    rw [Domain.isEmpty, domainSince, tuplesSince_of_sameMembers h, hsums]
    rfl
  rw [Domain.Unchanged, between_eq hsource hdestination, removedTags_of_sameMembers h,
    removedReference?_nil]
  exact ⟨_, rfl, hempty, rfl⟩

end SameMembers

end Difference

end DomainEvolution

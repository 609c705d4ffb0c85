import DomainEvolution.Proofs.MemberEvolutions

/-!
# Chains of versions

What changes over a chain of versions changes on one of its links. The members whose transform has
to be written by hand are those that are new to their place; a member that a later version has as
the version before it did is as new to that version as it is to the later one.
-/

namespace DomainEvolution

namespace Domain

/-- The places of the members whose transform has to be written by hand. -/
def abstractPlaces (domain : Domain) : List Place :=
  (domain.evolutions.filter (·.2.isTransformAbstract)).map Prod.fst

variable {source middle destination : Domain}

/-- To have a tuple is to have each tuple of its structure; the same goes for sums and variants. -/
theorem HasTuple.of_sameStructure {old new : Tuple} (h : source.HasTuple old)
    (hsame : old.sameStructure new) : source.HasTuple new := by
  obtain ⟨t, ht, htold⟩ := h
  exact ⟨t, ht, Tuple.sameStructure_trans htold hsame⟩

theorem HasVariantTags.of_sameVariantTags {old new : Sum} (h : source.HasVariantTags old)
    (htag : old.tag = new.tag) (hsame : old.SameVariantTags new) : source.HasVariantTags new := by
  obtain ⟨s, hs, hstag, hsold⟩ := h
  exact ⟨s, hs, hstag.trans htag, List.Subset.trans hsold.1 hsame.1,
    List.Subset.trans hsame.2 hsold.2⟩

theorem HasVariant.of_sameStructure {old new : Sum} {v w : Tuple} (h : source.HasVariant old v)
    (htag : old.tag = new.tag) (hsame : v.sameStructure w) : source.HasVariant new w := by
  obtain ⟨s, hs, hstag, u, hu, huv⟩ := h
  exact ⟨s, hs, hstag.trans htag, u, hu, Tuple.sameStructure_trans huv hsame⟩

/-- What is new over a chain of two links is new on the second link, or else it was new on the
first. -/
theorem New.of_chain {place : Place} (h : New source destination place) (middle : Domain) :
    New middle destination place ∨ place ∈ middle.places ∧ New source middle place := by
  -- If the middle version has the member, then its own copy is the one that the source has not.
  cases h with
  | @tuple tuple htuple hnew =>
    by_cases hmiddle : middle.HasTuple tuple
    · obtain ⟨old, hold, hsame⟩ := hmiddle
      rw [← Tuple.tag_eq_of_sameStructure hsame]
      exact Or.inr ⟨tuple_mem_places.mpr ⟨old, hold, rfl⟩,
        .tuple hold fun h => hnew (h.of_sameStructure hsame)⟩
    · exact Or.inl (.tuple htuple hmiddle)
  | @sum sum hsum hnew =>
    by_cases hmiddle : middle.HasVariantTags sum
    · obtain ⟨old, hold, htag, hsame⟩ := hmiddle
      rw [← htag]
      exact Or.inr ⟨sum_mem_places.mpr ⟨old, hold, rfl⟩,
        .sum hold fun h => hnew (h.of_sameVariantTags htag hsame)⟩
    · exact Or.inl (.sum hsum hmiddle)
  | @variant sum v hsum hv hnew =>
    by_cases hmiddle : middle.HasVariant sum v
    · obtain ⟨old, hold, htag, w, hw, hsame⟩ := hmiddle
      rw [← htag, ← Tuple.tag_eq_of_sameStructure hsame]
      exact Or.inr ⟨variant_mem_places.mpr ⟨old, hold, rfl, w, hw, rfl⟩,
        .variant hold hw fun h => hnew (h.of_sameStructure htag hsame)⟩
    · exact Or.inl (.variant hsum hv hmiddle)

/-- A member that is not inherited needs a transform by hand. -/
theorem isTransformAbstract_evolutionOf (domain : Domain) (tag : String) :
    (domain.evolutionOf tag).isTransformAbstract = true := by
  rw [evolutionOf_eq]
  split <;> rfl

end Domain

namespace Difference

variable {source destination : Domain}

/-- The members of a difference that need a transform by hand are the new ones. -/
theorem mem_abstractPlaces_domainSince_iff (hdestination : destination.tags.Nodup) {place : Place} :
    place ∈ (domainSince source destination).abstractPlaces ↔
      Domain.New source destination place := by
  constructor
  · intro h
    obtain ⟨⟨_, evolution⟩, hentry, rfl⟩ := List.mem_map.mp h
    obtain ⟨hmem, habstract⟩ := List.mem_filter.mp hentry
    rcases evolution_of_mem_domainSince hmem with ⟨rfl, -⟩ | ⟨hnew, -⟩
    · cases habstract
    · exact hnew
  · intro hnew
    have hentry := mem_evolutions_domainSince hdestination hnew
    have habstract := Domain.isTransformAbstract_evolutionOf source place.tag
    exact List.mem_map.mpr ⟨_, List.mem_filter.mpr ⟨hentry, habstract⟩, rfl⟩

/-- A tag that gets lost over a chain of two links gets lost on one of them. -/
theorem mem_removedTags_of_chain {tag : String} (h : tag ∈ removedTags source destination)
    (middle : Domain) : tag ∈ removedTags source middle ∨ tag ∈ removedTags middle destination := by
  simp only [removedTags, List.mem_filter, Bool.not_eq_true', List.contains_eq_mem,
    decide_eq_false_iff_not] at h ⊢
  by_cases hmiddle : tag ∈ middle.tags
  · exact Or.inr ⟨hmiddle, h.2⟩
  · exact Or.inl ⟨h.1, hmiddle⟩

/-- **Triangle law for version chains.** A member that needs a transform by hand from the first
version to the last needs one on the second link of the chain, or it stands in the middle version
and needs one on the first link; and what gets lost from first to last gets lost on a link. -/
theorem abstractPlaces_and_removedTags_of_chain {first second third : Decl.Domain}
    {source middle destination : Domain} {direct early late : Transform}
    (hsource : Domain.synthesize first = .ok source)
    (hmiddle : Domain.synthesize second = .ok middle)
    (hdestination : Domain.synthesize third = .ok destination)
    (hdirect : Transform.between source destination = .ok direct)
    (hearly : Transform.between source middle = .ok early)
    (hlate : Transform.between middle destination = .ok late) :
    (∀ place ∈ direct.difference.abstractPlaces, place ∈ late.difference.abstractPlaces ∨
        place ∈ middle.places ∧ place ∈ early.difference.abstractPlaces) ∧
      ∀ tag ∈ direct.removedTags, tag ∈ early.removedTags ∨ tag ∈ late.removedTags := by
  have hsourceTags := (Synthesis.coherent_of_synthesize hsource).tags
  have hmiddleCoherent := Synthesis.coherent_of_synthesize hmiddle
  have hdestinationCoherent := Synthesis.coherent_of_synthesize hdestination
  obtain ⟨hdirectMembers, hdirectTags⟩ := eq_of_between hsourceTags hdestinationCoherent hdirect
  obtain ⟨hearlyMembers, hearlyTags⟩ := eq_of_between hsourceTags hmiddleCoherent hearly
  obtain ⟨hlateMembers, hlateTags⟩ :=
    eq_of_between hmiddleCoherent.tags hdestinationCoherent hlate
  rw [hdirectMembers, hearlyMembers, hlateMembers, hdirectTags, hearlyTags, hlateTags]
  refine ⟨fun place hplace => ?_, fun tag htag => mem_removedTags_of_chain htag middle⟩
  rw [mem_abstractPlaces_domainSince_iff hdestinationCoherent.tags] at hplace ⊢
  rw [mem_abstractPlaces_domainSince_iff hmiddleCoherent.tags]
  exact hplace.of_chain middle

/-- The first version of a chain. -/
def earlyVersion : Decl.Domain where
  tag := "v1"
  tuples := [unit "gone", unit "brief", unit "swing", ⟨"point", .record, []⟩]
  sums := [⟨"shape", [unit "dot", unit "box"]⟩, ⟨"kind", [unit "one"]⟩]

/-- The version after one tuple is gone, two have changed and a sum has grown. -/
def middleVersion : Decl.Domain where
  tag := "v2"
  tuples := [unit "brief", ⟨"swing", .record, []⟩, unit "point"]
  sums := [⟨"shape", [unit "dot", unit "box"]⟩, ⟨"kind", [unit "one", unit "two"]⟩]

/-- The version after a further tuple is gone, one has changed back and a variant has changed. -/
def lateVersion : Decl.Domain where
  tag := "v3"
  tuples := [unit "swing", unit "point"]
  sums := [⟨"shape", [unit "dot", ⟨"box", .record, []⟩]⟩, ⟨"kind", [unit "one", unit "two"]⟩]

/-- Of the changes over the chain, the tuple and the sum come from the first link and the variant of
the other sum comes from the second. -/
theorem abstractPlaces_and_removedTags_of_chain_versions :
    ∃ source middle destination direct early late,
      Domain.synthesize earlyVersion = .ok source ∧ Domain.synthesize middleVersion = .ok middle ∧
      Domain.synthesize lateVersion = .ok destination ∧
      Transform.between source destination = .ok direct ∧
      Transform.between source middle = .ok early ∧
      Transform.between middle destination = .ok late ∧
      direct.difference.abstractPlaces =
        [.tuple "point", .variant "shape" "box", .sum "kind", .variant "kind" "two"] ∧
      direct.removedTags = ["gone", "brief"] ∧
      (∀ place ∈ direct.difference.abstractPlaces, place ∈ late.difference.abstractPlaces ∨
        place ∈ middle.places ∧ place ∈ early.difference.abstractPlaces) ∧
      ∀ tag ∈ direct.removedTags, tag ∈ early.removedTags ∨ tag ∈ late.removedTags := by
  obtain ⟨source, middle, destination, direct, early, late, hsource, hmiddle, hdestination, hdirect,
      hearly, hlate, hplaces, hremoved⟩ :
      ∃ source middle destination direct early late,
        Domain.synthesize earlyVersion = .ok source ∧ Domain.synthesize middleVersion = .ok middle ∧
        Domain.synthesize lateVersion = .ok destination ∧
        Transform.between source destination = .ok direct ∧
        Transform.between source middle = .ok early ∧
        Transform.between middle destination = .ok late ∧
        direct.difference.abstractPlaces =
          [.tuple "point", .variant "shape" "box", .sum "kind", .variant "kind" "two"] ∧
        direct.removedTags = ["gone", "brief"] := by
    refine ⟨_, _, _, _, _, _, rfl, rfl, rfl, rfl, rfl, rfl, ?_, ?_⟩
    · decide +kernel
    · decide +kernel
  exact ⟨source, middle, destination, direct, early, late, hsource, hmiddle, hdestination, hdirect,
    hearly, hlate, hplaces, hremoved,
    abstractPlaces_and_removedTags_of_chain hsource hmiddle hdestination hdirect hearly hlate⟩

end Difference

end DomainEvolution

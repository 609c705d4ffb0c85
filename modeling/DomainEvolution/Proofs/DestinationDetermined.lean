import DomainEvolution.Proofs.DifferenceMembers

/-!
# A difference determines its destination

Members that did not change are absent from a difference, so that a member's absence has to tell as
much as its presence. It does, for tags are unique: a tag that is neither removed nor emitted can
only belong to the member that has it in the source. Two destinations with one difference from one
source therefore define the same members.
-/

namespace DomainEvolution

/-- All that a comparison reads of a tuple in a difference. -/
def Tuple.sketch (tuple : Tuple) : Tuple.Skeleton × Evolution := (tuple.skeleton, tuple.evolution)

/-- All that a comparison reads of a sum in a difference. -/
def Sum.sketch (sum : Sum) : String × Evolution × List (Tuple.Skeleton × Evolution) :=
  (sum.tag, sum.evolution, sum.variants.map (·.sketch))

/-- Transforms that hold the same tuples and sums, compared by structure and evolution, and remove
the same tags. -/
structure Transform.SameChanges (first second : Transform) : Prop where
  tuples : first.difference.tuples.map (·.sketch) = second.difference.tuples.map (·.sketch)
  sums : first.difference.sums.map (·.sketch) = second.difference.sums.map (·.sketch)
  removedTags : first.removedTags = second.removedTags

/-- What a domain defines under one tag: the place and the structure of a member. -/
inductive Definition where
  | tuple (skeleton : Tuple.Skeleton)
  | sum (tag : String)
  | variant (sum : String) (skeleton : Tuple.Skeleton)
  deriving DecidableEq, Repr

/-- Where the member stands. -/
def Definition.place : Definition → Place
  | tuple skeleton => .tuple skeleton.tag
  | sum tag => .sum tag
  | variant owner skeleton => .variant owner skeleton.tag

namespace Domain

/-- Domains that define the same tags with the same kinds, and these in the same structures. -/
structure SameMembers (first second : Domain) : Prop where
  places : ∀ place, place ∈ first.places ↔ place ∈ second.places
  tuples : ∀ t ∈ first.tuples, ∃ u ∈ second.tuples, t.tag = u.tag ∧ t.sameStructure u
  sums : ∀ s ∈ first.sums, ∃ t ∈ second.sums, s.tag = t.tag ∧ s.SameVariantTags t ∧
    ∀ v ∈ s.variants, ∀ w ∈ t.variants, v.tag = w.tag → v.sameStructure w

/-- All that a domain defines: its tuples, and then each sum followed by its variants. -/
def definitions (domain : Domain) : List Definition :=
  domain.tuples.map (.tuple ·.skeleton) ++
    domain.sums.flatMap fun sum => .sum sum.tag :: sum.variants.map (.variant sum.tag ·.skeleton)

variable {domain : Domain}

theorem map_place_definitions (domain : Domain) :
    domain.definitions.map Definition.place = domain.places := by
  simp [definitions, places, List.map_flatMap, Definition.place, Tuple.skeleton, Function.comp_def]

theorem tuple_mem_definitions {skeleton : Tuple.Skeleton} :
    .tuple skeleton ∈ domain.definitions ↔ ∃ tuple ∈ domain.tuples, tuple.skeleton = skeleton := by
  simp [definitions]

theorem sum_mem_definitions {tag : String} :
    .sum tag ∈ domain.definitions ↔ ∃ sum ∈ domain.sums, sum.tag = tag := by
  simp [definitions, eq_comm]

theorem variant_mem_definitions {sumTag : String} {skeleton : Tuple.Skeleton} :
    .variant sumTag skeleton ∈ domain.definitions ↔
      ∃ sum ∈ domain.sums, sum.tag = sumTag ∧ ∃ v ∈ sum.variants, v.skeleton = skeleton := by
  simp only [definitions, List.mem_append, List.mem_map, reduceCtorEq, and_false, exists_false,
    List.mem_flatMap, List.mem_cons, false_or, Definition.variant.injEq]
  constructor
  · rintro ⟨sum, hsum, v, hv, rfl, rfl⟩
    exact ⟨sum, hsum, rfl, v, hv, rfl⟩
  · rintro ⟨sum, hsum, rfl, v, hv, rfl⟩
    exact ⟨sum, hsum, v, hv, rfl, rfl⟩

/-- A tag is defined exactly when some definition has it. -/
theorem mem_tags_iff_exists_definition {tag : String} :
    tag ∈ domain.tags ↔ ∃ definition ∈ domain.definitions, definition.place.tag = tag := by
  rw [← map_tag_places, ← map_place_definitions, List.map_map]
  exact List.mem_map

/-- A tag has one definition only. -/
theorem definition_unique (htags : domain.tags.Nodup) {m n : Definition}
    (hm : m ∈ domain.definitions) (hn : n ∈ domain.definitions)
    (htag : m.place.tag = n.place.tag) : m = n := by
  rw [← map_tag_places, ← map_place_definitions, List.map_map] at htags
  exact List.inj_on_of_nodup_map htags hm hn htag

/-- What a domain defines can be read off the sketches of its tuples and sums. -/
theorem definitions_eq_of_sketch {other : Domain}
    (htuples : domain.tuples.map (·.sketch) = other.tuples.map (·.sketch))
    (hsums : domain.sums.map (·.sketch) = other.sums.map (·.sketch)) :
    domain.definitions = other.definitions := by
  have hdefinitions (d : Domain) : d.definitions =
      (d.tuples.map (·.sketch)).map (fun sketch => .tuple sketch.1) ++
        (d.sums.map (·.sketch)).flatMap fun sketch =>
          .sum sketch.1 :: sketch.2.2.map (fun v => .variant sketch.1 v.1) := by
    simp [definitions, Tuple.sketch, Sum.sketch, List.flatMap_map, Function.comp_def]
  rw [hdefinitions domain, hdefinitions other, htuples, hsums]

/-- If a domain defines all that another one does, each sum of that one has a counterpart that has
all its variants. -/
theorem exists_sum_of_definitions_subset {other : Domain} (htags : other.tags.Nodup)
    (h : domain.definitions ⊆ other.definitions) {sum : Sum} (hsum : sum ∈ domain.sums) :
    ∃ counterpart ∈ other.sums, counterpart.tag = sum.tag ∧
      ∀ v ∈ sum.variants, ∃ w ∈ counterpart.variants, w.skeleton = v.skeleton := by
  obtain ⟨counterpart, hcounterpart, htag⟩ :=
    sum_mem_definitions.mp (h (sum_mem_definitions.mpr ⟨sum, hsum, rfl⟩))
  refine ⟨counterpart, hcounterpart, htag, fun v hv => ?_⟩
  obtain ⟨owner, howner, hownerTag, hw⟩ :=
    variant_mem_definitions.mp (h (variant_mem_definitions.mpr ⟨sum, hsum, rfl, v, hv, rfl⟩))
  rwa [sum_unique htags howner hcounterpart (hownerTag.trans htag.symm)] at hw

/-- Domains with the same definitions have the same members. -/
theorem SameMembers.of_subset {first second : Domain} (hfirst : first.tags.Nodup)
    (hsecond : second.tags.Nodup) (hforward : first.definitions ⊆ second.definitions)
    (hbackward : second.definitions ⊆ first.definitions) : SameMembers first second where
  places place := by
    rw [← map_place_definitions, ← map_place_definitions]
    exact ⟨fun h => List.map_subset _ hforward h, fun h => List.map_subset _ hbackward h⟩
  tuples t ht := by
    obtain ⟨u, hu, heq⟩ :=
      tuple_mem_definitions.mp (hforward (tuple_mem_definitions.mpr ⟨t, ht, rfl⟩))
    exact ⟨u, hu, congrArg Tuple.Skeleton.tag heq.symm, Tuple.sameStructure_iff.mpr heq.symm⟩
  sums s hs := by
    obtain ⟨t, ht, htag, hvariants⟩ := exists_sum_of_definitions_subset hsecond hforward hs
    obtain ⟨s', hs', htag', hvariants'⟩ := exists_sum_of_definitions_subset hfirst hbackward ht
    rw [sum_unique hfirst hs' hs (htag'.trans htag)] at hvariants'
    refine ⟨t, ht, htag.symm, ⟨?_, ?_⟩, ?_⟩
    · rintro _ htagMem
      obtain ⟨v, hv, rfl⟩ := List.mem_map.mp htagMem
      obtain ⟨w, hw, heq⟩ := hvariants v hv
      exact List.mem_map.mpr ⟨w, hw, congrArg Tuple.Skeleton.tag heq⟩
    · rintro _ htagMem
      obtain ⟨w, hw, rfl⟩ := List.mem_map.mp htagMem
      obtain ⟨v, hv, heq⟩ := hvariants' w hw
      exact List.mem_map.mpr ⟨v, hv, congrArg Tuple.Skeleton.tag heq⟩
    · intro v hv w hw hvw
      obtain ⟨w', hw', heq⟩ := hvariants v hv
      have hwEq : w' = w := variant_unique hsecond ht hw' hw
        ((congrArg Tuple.Skeleton.tag heq).trans hvw)
      rw [← hwEq]
      exact Tuple.sameStructure_iff.mpr heq.symm

end Domain

namespace Difference

/-- A tuple that the source does not have is emitted. -/
theorem exists_mem_tuplesSince {source destination : Domain} {tuple : Tuple}
    (htuple : tuple ∈ destination.tuples) (hnot : ¬ source.HasTuple tuple) :
    ∃ emitted ∈ tuplesSince source destination, emitted.skeleton = tuple.skeleton :=
  ⟨_, List.mem_map_of_mem (List.mem_filter.mpr ⟨htuple, decide_eq_true hnot⟩), rfl⟩

/-- A sum that the source does not have is emitted. -/
theorem exists_sumSince?_eq_some {source : Domain} {sum : Sum} (h : ¬ source.HasSum sum) :
    ∃ emitted, sumSince? source sum = some emitted := by
  unfold sumSince?
  rw [if_neg h]
  split
  · exact ⟨_, rfl⟩
  · exact ⟨_, rfl⟩

/-- A variant that the source does not have is emitted with its sum. -/
theorem exists_variant_of_sumSince?_eq_some {source : Domain} {sum emitted : Sum}
    (h : sumSince? source sum = some emitted) {variant : Tuple} (hvariant : variant ∈ sum.variants)
    (hnot : ¬ source.HasVariant sum variant) :
    ∃ v ∈ emitted.variants, v.skeleton = variant.skeleton := by
  unfold sumSince? at h
  split at h
  · cases h
  · split at h
    · cases h
      refine ⟨variant.withEvolution .changed, List.mem_map_of_mem ?_, rfl⟩
      exact List.mem_filter.mpr ⟨hvariant, decide_eq_true hnot⟩
    · cases h
      exact ⟨_, List.mem_map_of_mem hvariant, rfl⟩

section Definitions

variable {source destination : Domain} {transform : Transform}
  (h : IsTransform source destination transform)
include h

/-- A difference defines nothing but what the destination defines. -/
theorem definitions_difference_subset :
    transform.difference.definitions ⊆ destination.definitions := by
  intro definition hdefinition
  cases definition with
  | tuple skeleton =>
    obtain ⟨emitted, hemitted, rfl⟩ := Domain.tuple_mem_definitions.mp hdefinition
    obtain ⟨tuple, htuple, _, heq⟩ := mem_tuplesSince (h.tuples ▸ hemitted)
    rw [heq, Tuple.skeleton_withEvolution]
    exact Domain.tuple_mem_definitions.mpr ⟨tuple, htuple, rfl⟩
  | sum tag =>
    obtain ⟨emitted, hemitted, rfl⟩ := Domain.sum_mem_definitions.mp hdefinition
    obtain ⟨sum, hsum, hsome⟩ := List.mem_filterMap.mp (h.sums ▸ hemitted)
    exact Domain.sum_mem_definitions.mpr ⟨sum, hsum, (eq_of_sumSince?_eq_some hsome).1.symm⟩
  | variant owner skeleton =>
    obtain ⟨emitted, hemitted, rfl, v, hv, rfl⟩ := Domain.variant_mem_definitions.mp hdefinition
    obtain ⟨sum, hsum, hsome⟩ := List.mem_filterMap.mp (h.sums ▸ hemitted)
    obtain ⟨htag, hvariants⟩ := eq_of_sumSince?_eq_some hsome
    obtain ⟨w, hw, heq⟩ := hvariants v hv
    rw [heq, Tuple.skeleton_withEvolution]
    exact Domain.variant_mem_definitions.mpr ⟨sum, hsum, htag.symm, w, hw, rfl⟩

/-- A difference defines all that the destination defines and the source does not. -/
theorem mem_definitions_difference (hdestination : destination.tags.Nodup) {definition : Definition}
    (hdefinition : definition ∈ destination.definitions) (hnot : definition ∉ source.definitions) :
    definition ∈ transform.difference.definitions := by
  cases definition with
  | tuple skeleton =>
    obtain ⟨tuple, htuple, rfl⟩ := Domain.tuple_mem_definitions.mp hdefinition
    have hnew : ¬ source.HasTuple tuple := by
      rintro ⟨old, hold, hsame⟩
      exact hnot (Domain.tuple_mem_definitions.mpr ⟨old, hold, Tuple.sameStructure_iff.mp hsame⟩)
    rw [Domain.tuple_mem_definitions, h.tuples]
    exact exists_mem_tuplesSince htuple hnew
  | sum tag =>
    obtain ⟨sum, hsum, rfl⟩ := Domain.sum_mem_definitions.mp hdefinition
    have hnew : ¬ source.HasSum sum := by
      rintro ⟨old, hold, htag, _⟩
      exact hnot (Domain.sum_mem_definitions.mpr ⟨old, hold, htag⟩)
    obtain ⟨emitted, hsome⟩ := exists_sumSince?_eq_some hnew
    refine Domain.sum_mem_definitions.mpr ⟨emitted, ?_, (eq_of_sumSince?_eq_some hsome).1⟩
    rw [h.sums]
    exact List.mem_filterMap.mpr ⟨sum, hsum, hsome⟩
  | variant owner skeleton =>
    obtain ⟨sum, hsum, rfl, v, hv, rfl⟩ := Domain.variant_mem_definitions.mp hdefinition
    have hnew : ¬ source.HasVariant sum v := by
      rintro ⟨old, hold, htag, w, hw, hsame⟩
      exact hnot (Domain.variant_mem_definitions.mpr
        ⟨old, hold, htag, w, hw, Tuple.sameStructure_iff.mp hsame⟩)
    have hsumNew : ¬ source.HasSum sum := fun hsame =>
      hnew (hsame.hasVariant (Domain.nodup_variant_tags hdestination hsum).of_cons hv)
    obtain ⟨emitted, hsome⟩ := exists_sumSince?_eq_some hsumNew
    refine Domain.variant_mem_definitions.mpr ⟨emitted, ?_, (eq_of_sumSince?_eq_some hsome).1,
      exists_variant_of_sumSince?_eq_some hsome hv hnew⟩
    rw [h.sums]
    exact List.mem_filterMap.mpr ⟨sum, hsum, hsome⟩

/-- A tag of the source is not removed exactly if the destination has it. -/
theorem notMem_removedTags_iff {tag : String} (hsource : tag ∈ source.tags) :
    tag ∉ transform.removedTags ↔ tag ∈ destination.tags := by
  rw [h.removed, List.mem_filter]
  simp [hsource]

end Definitions

/-- Of two destinations with one difference from one source, the second defines all that the first
does: what is not emitted is the source's, and then so is what the second has under that tag. -/
theorem definitions_subset_of_sameChanges {source first second : Domain} {t u : Transform}
    (hsource : source.tags.Nodup) (hfirst : first.tags.Nodup) (hsecond : second.tags.Nodup)
    (ht : IsTransform source first t) (hu : IsTransform source second u) (h : t.SameChanges u) :
    first.definitions ⊆ second.definitions := by
  have hdifference : t.difference.definitions = u.difference.definitions :=
    Domain.definitions_eq_of_sketch h.tuples h.sums
  intro definition hdefinition
  by_cases hold : definition ∈ source.definitions
  · have hsourceTag : definition.place.tag ∈ source.tags :=
      Domain.mem_tags_iff_exists_definition.mpr ⟨definition, hold, rfl⟩
    have hfirstTag : definition.place.tag ∈ first.tags :=
      Domain.mem_tags_iff_exists_definition.mpr ⟨definition, hdefinition, rfl⟩
    have hkept := (notMem_removedTags_iff ht hsourceTag).mpr hfirstTag
    rw [h.removedTags] at hkept
    have hsecondTag := (notMem_removedTags_iff hu hsourceTag).mp hkept
    obtain ⟨other, hother, htag⟩ := Domain.mem_tags_iff_exists_definition.mp hsecondTag
    have hsame : other = definition := by
      by_cases hotherOld : other ∈ source.definitions
      · exact Domain.definition_unique hsource hotherOld hold htag
      · have hemitted := mem_definitions_difference hu hsecond hother hotherOld
        rw [← hdifference] at hemitted
        have hotherFirst := definitions_difference_subset ht hemitted
        exact Domain.definition_unique hfirst hotherFirst hdefinition htag
    rwa [← hsame]
  · have hemitted := mem_definitions_difference ht hfirst hdefinition hold
    rw [hdifference] at hemitted
    exact definitions_difference_subset hu hemitted

/-- **A source and what changes from it determine the destination.** -/
theorem sameMembers_of_between_sameChanges {old new newer : Decl.Domain}
    {source first second : Domain} {t u : Transform} (hsource : Domain.synthesize old = .ok source)
    (hfirst : Domain.synthesize new = .ok first) (hsecond : Domain.synthesize newer = .ok second)
    (ht : Transform.between source first = .ok t) (hu : Transform.between source second = .ok u)
    (h : t.SameChanges u) : first.SameMembers second := by
  have hsourceTags := (Synthesis.coherent_of_synthesize hsource).tags
  have hfirstCoherent := Synthesis.coherent_of_synthesize hfirst
  have hsecondCoherent := Synthesis.coherent_of_synthesize hsecond
  have htransform := isTransform_of_between hsourceTags hfirstCoherent ht
  have htransform' := isTransform_of_between hsourceTags hsecondCoherent hu
  have hreverse : u.SameChanges t := ⟨h.tuples.symm, h.sums.symm, h.removedTags.symm⟩
  exact .of_subset hfirstCoherent.tags hsecondCoherent.tags
    (definitions_subset_of_sameChanges hsourceTags hfirstCoherent.tags hsecondCoherent.tags
      htransform htransform' h)
    (definitions_subset_of_sameChanges hsourceTags hsecondCoherent.tags hfirstCoherent.tags
      htransform' htransform hreverse)

/-- A domain with one sum. -/
def shapes (tag : String) (tuples variants : List Decl.Tuple) : Decl.Domain :=
  ⟨tag, tuples, [⟨"shape", variants⟩]⟩

/-- The order of variants does not show in a difference that holds only one of them. -/
theorem sameMembers_of_between_sameChanges_reordered :
    ∃ source first second t u,
      Domain.synthesize (shapes "v1" [⟨"gone", .record, []⟩]
        [⟨"box", .product, []⟩, ⟨"dot", .product, []⟩]) = .ok source ∧
      Domain.synthesize (shapes "v2" []
        [⟨"box", .record, []⟩, ⟨"dot", .product, []⟩]) = .ok first ∧
      Domain.synthesize (shapes "v3" []
        [⟨"dot", .product, []⟩, ⟨"box", .record, []⟩]) = .ok second ∧
      Transform.between source first = .ok t ∧ Transform.between source second = .ok u ∧
      t.SameChanges u ∧ first.SameMembers second := by
  obtain ⟨source, first, second, t, u, hsource, hfirst, hsecond, ht, hu, h⟩ :
      ∃ source first second t u,
        Domain.synthesize (shapes "v1" [⟨"gone", .record, []⟩]
          [⟨"box", .product, []⟩, ⟨"dot", .product, []⟩]) = .ok source ∧
        Domain.synthesize (shapes "v2" []
          [⟨"box", .record, []⟩, ⟨"dot", .product, []⟩]) = .ok first ∧
        Domain.synthesize (shapes "v3" []
          [⟨"dot", .product, []⟩, ⟨"box", .record, []⟩]) = .ok second ∧
        Transform.between source first = .ok t ∧ Transform.between source second = .ok u ∧
        t.SameChanges u := by
    refine ⟨_, _, _, _, _, rfl, rfl, rfl, rfl, rfl, ?_, ?_, ?_⟩
    · decide +kernel
    · decide +kernel
    · decide +kernel
  exact ⟨source, first, second, t, u, hsource, hfirst, hsecond, ht, hu, h,
    sameMembers_of_between_sameChanges hsource hfirst hsecond ht hu h⟩

end Difference

end DomainEvolution

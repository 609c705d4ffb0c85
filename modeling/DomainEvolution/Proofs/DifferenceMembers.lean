import DomainEvolution.Proofs.DerivedFields
import DomainEvolution.Proofs.UniqueTags

/-!
# What a difference holds

A difference is described member by member, in the order of the destination. A tuple is emitted if
the source has none of its structure; a sum is left out, emitted in part or emitted as a whole. What
is emitted is the destination's member with another evolution and nothing else changed.
-/

namespace DomainEvolution

/-- Tuples of one structure have one skeleton. -/
theorem Tuple.sameStructure_iff {old new : Tuple} :
    old.sameStructure new = true ↔ old.skeleton = new.skeleton := by
  rw [sameStructure, beq_iff_eq]

/-- Tuples of one structure have one tag. -/
theorem Tuple.tag_eq_of_sameStructure {old new : Tuple} (h : old.sameStructure new = true) :
    old.tag = new.tag :=
  congrArg Skeleton.tag (sameStructure_iff.mp h)

theorem Tuple.sameStructure_symm {old new : Tuple} (h : old.sameStructure new = true) :
    new.sameStructure old = true :=
  sameStructure_iff.mpr (sameStructure_iff.mp h).symm

theorem Tuple.sameStructure_trans {first second third : Tuple}
    (h : first.sameStructure second = true) (h' : second.sameStructure third = true) :
    first.sameStructure third = true :=
  sameStructure_iff.mpr ((sameStructure_iff.mp h).trans (sameStructure_iff.mp h'))

/-- Sums with one set of variant tags, without regard to their own tags. -/
def Sum.SameVariantTags (old new : Sum) : Prop :=
  old.variantTags ⊆ new.variantTags ∧ new.variantTags ⊆ old.variantTags

instance (old new : Sum) : Decidable (old.SameVariantTags new) :=
  inferInstanceAs (Decidable (_ ∧ _))

namespace Domain

/-- Whether a domain has a tuple of the same structure at its top. -/
def HasTuple (domain : Domain) (tuple : Tuple) : Prop :=
  ∃ old ∈ domain.tuples, old.sameStructure tuple

/-- Whether a domain's sum of the same tag has a variant of the same structure. -/
def HasVariant (domain : Domain) (sum : Sum) (variant : Tuple) : Prop :=
  ∃ old ∈ domain.sums, old.tag = sum.tag ∧ ∃ v ∈ old.variants, v.sameStructure variant

/-- Whether a domain has a sum of the same tag with the same set of variant tags. -/
def HasVariantTags (domain : Domain) (sum : Sum) : Prop :=
  ∃ old ∈ domain.sums, old.tag = sum.tag ∧ old.SameVariantTags sum

/-- Whether a domain has a sum of the same tag with the same set of variant tags, all of whose
variants have the structure of a variant of the sum. -/
def HasSum (domain : Domain) (sum : Sum) : Prop :=
  ∃ old ∈ domain.sums, old.tag = sum.tag ∧ old.SameVariantTags sum ∧
    ∀ v ∈ old.variants, ∃ w ∈ sum.variants, v.sameStructure w

instance (domain : Domain) (tuple : Tuple) : Decidable (domain.HasTuple tuple) :=
  inferInstanceAs (Decidable (∃ old ∈ domain.tuples, _))

instance (domain : Domain) (sum : Sum) (variant : Tuple) :
    Decidable (domain.HasVariant sum variant) :=
  inferInstanceAs (Decidable (∃ old ∈ domain.sums, _ ∧ ∃ v ∈ old.variants, _))

instance (domain : Domain) (sum : Sum) : Decidable (domain.HasVariantTags sum) :=
  inferInstanceAs (Decidable (∃ old ∈ domain.sums, _))

instance (domain : Domain) (sum : Sum) : Decidable (domain.HasSum sum) :=
  inferInstanceAs (Decidable (∃ old ∈ domain.sums, _ ∧ _ ∧
    ∀ v ∈ old.variants, ∃ w ∈ sum.variants, _))

/-- A sum that the domain has has the variant tags of a sum of the domain. -/
theorem HasSum.hasVariantTags {domain : Domain} {sum : Sum} (h : domain.HasSum sum) :
    domain.HasVariantTags sum := by
  obtain ⟨old, hold, htag, hsame, -⟩ := h
  exact ⟨old, hold, htag, hsame⟩

/-- Of a sum that it has, the domain has every variant. -/
theorem HasSum.hasVariant {domain : Domain} {sum : Sum} (h : domain.HasSum sum)
    (hvariants : (sum.variants.map (·.tag)).Nodup) {v : Tuple} (hv : v ∈ sum.variants) :
    domain.HasVariant sum v := by
  obtain ⟨old, hold, htag, hsame, hall⟩ := h
  obtain ⟨o, ho, hotag⟩ := List.mem_map.mp (hsame.2 (List.mem_map_of_mem hv))
  obtain ⟨w, hw, hstructure⟩ := hall o ho
  have hwv : w = v := List.inj_on_of_nodup_map hvariants hw hv
    ((Tuple.tag_eq_of_sameStructure hstructure).symm.trans hotag)
  exact ⟨old, hold, htag, o, ho, hwv ▸ hstructure⟩

end Domain

namespace Difference

/-- The tuples that a difference holds at its top. -/
def tuplesSince (source destination : Domain) : List Tuple :=
  (destination.tuples.filter (¬ source.HasTuple ·)).map fun tuple =>
    tuple.withEvolution (if tuple.tag ∈ source.tags then .changed else .added)

/-- What a difference holds of a sum. -/
def sumSince? (source : Domain) (sum : Sum) : Option Sum :=
  if source.HasSum sum then none
  else if source.HasVariantTags sum then
    some { sum with
      evolution := .inherited
      variants := (sum.variants.filter (¬ source.HasVariant sum ·)).map (·.withEvolution .changed) }
  else
    some { sum with
      evolution := if sum.tag ∈ source.tags then .changed else .added
      variants := sum.variants.map fun v => v.withEvolution <|
        if source.HasVariant sum v then .inherited
        else if v.tag ∈ source.tags then .changed
        else .added }

/-- What a transform from a source to a destination says. -/
structure IsTransform (source destination : Domain) (transform : Transform) : Prop where
  tuples : transform.difference.tuples = tuplesSince source destination
  tuples_nodup : transform.difference.tuples.Nodup
  sums : transform.difference.sums = destination.sums.filterMap (sumSince? source)
  emitted : ∀ tuple ∈ transform.difference.allTuples,
    ∃ new ∈ destination.allTuples, tuple = new.withEvolution tuple.evolution
  removed : transform.removedTags = source.tags.filter (· ∉ destination.tags)
  name : transform.difference.name = source.name ++ "To" ++ destination.name ++ "Difference"
  tag : transform.difference.tag = source.tag ++ "_to_" ++ destination.tag
  sourceName : transform.sourceName = source.name
  destinationName : transform.destinationName = destination.name

/-! ### Which members are emitted -/

/-- A tuple as a difference holds it. -/
def emittedTuple (emission : Emission) : Tuple := emission.1.withEvolution emission.2

/-- A sum as a difference holds it. -/
def emittedSum (emission : Sum × Evolution × List Emission) : Sum :=
  { emission.1 with
    evolution := emission.2.1
    variants := emission.2.2.map emittedTuple }

section Source

variable {source : Domain} (htags : source.tags.Nodup)
include htags

/-- The evolution of a tuple, told by the structures and the tags of the source. -/
theorem tupleEvolution?_eq (tuple : Tuple) :
    tupleEvolution? source tuple = if source.HasTuple tuple then none
      else some (if tuple.tag ∈ source.tags then .changed else .added) := by
  unfold tupleEvolution?
  cases hlast : source.lastTuple? tuple.tag with
  | none =>
    have hnot : ¬ source.HasTuple tuple := by
      rintro ⟨old, hold, hsame⟩
      have hsome := (Domain.lastTuple?_eq_some_iff htags).mpr
        ⟨hold, Tuple.tag_eq_of_sameStructure hsame⟩
      rw [hlast] at hsome
      cases hsome
    simp [hnot, Domain.evolutionOf]
  | some old =>
    obtain ⟨hold, htag⟩ := (Domain.lastTuple?_eq_some_iff htags).mp hlast
    have hiff : source.HasTuple tuple ↔ old.sameStructure tuple = true := by
      constructor
      · rintro ⟨other, hother, hsame⟩
        have heq := Domain.tuple_unique htags hother hold
          ((Tuple.tag_eq_of_sameStructure hsame).trans htag.symm)
        rwa [← heq]
      · exact fun hsame => ⟨old, hold, hsame⟩
    have hmem : tuple.tag ∈ source.tags := by
      rw [← htag]
      exact Domain.tuple_tag_mem_tags hold
    simp [hiff, hmem]

/-- A sum of the source keeps a variant exactly when it has a variant of the same structure. -/
theorem keeps_iff {old : Sum} (hold : old ∈ source.sums) {variant : Tuple} :
    old.keeps variant = true ↔ ∃ v ∈ old.variants, v.sameStructure variant = true := by
  simp only [Sum.keeps, Option.any_eq_true, Domain.lastVariant?_eq_some_iff htags hold]
  constructor
  · rintro ⟨v, ⟨hv, _⟩, hsame⟩
    exact ⟨v, hv, hsame⟩
  · rintro ⟨v, hv, hsame⟩
    exact ⟨v, ⟨hv, Tuple.tag_eq_of_sameStructure hsame⟩, hsame⟩

/-- The evolution of a variant of a sum that is emitted as a whole. -/
theorem variantEvolution_eq {old : Sum} (hold : old ∈ source.sums) (variant : Tuple) :
    variantEvolution source old variant = if old.keeps variant then .inherited
      else if variant.tag ∈ source.tags then .changed else .added := by
  unfold variantEvolution Sum.keeps
  cases hlast : old.lastVariant? variant.tag with
  | none => simp [Domain.evolutionOf]
  | some v =>
    obtain ⟨hv, htag⟩ := (Domain.lastVariant?_eq_some_iff htags hold).mp hlast
    have hmem : variant.tag ∈ source.tags := by
      rw [← htag]
      exact Domain.variant_tag_mem_tags hold hv
    simp [hmem]

section Counterpart

variable {old sum : Sum} (hold : old ∈ source.sums) (htag : old.tag = sum.tag)
include hold htag

/-- What holds of some sum of the source with a given tag holds of the only one there is. -/
theorem exists_sum_iff {p : Sum → Prop} :
    (∃ other ∈ source.sums, other.tag = sum.tag ∧ p other) ↔ p old := by
  constructor
  · rintro ⟨other, hother, hotherTag, h⟩
    rwa [Domain.sum_unique htags hother hold (hotherTag.trans htag.symm)] at h
  · exact fun h => ⟨old, hold, htag, h⟩

theorem hasVariant_iff {variant : Tuple} :
    source.HasVariant sum variant ↔ old.keeps variant = true := by
  rw [keeps_iff htags hold]
  exact exists_sum_iff htags hold htag

theorem hasVariantTags_iff : source.HasVariantTags sum ↔ old.sameVariants sum = true := by
  rw [Domain.HasVariantTags, exists_sum_iff htags hold htag]
  simp [Sum.sameVariants, Sum.SameVariantTags, htag, List.subset_def]

/-- A sum is unchanged exactly when its variant tags are and each of its variants is. -/
theorem hasSum_iff (hvariants : (sum.variants.map (·.tag)).Nodup) :
    source.HasSum sum ↔
      old.sameVariants sum = true ∧ ∀ v ∈ sum.variants, old.keeps v = true := by
  rw [← hasVariantTags_iff htags hold htag]
  constructor
  · intro h
    refine ⟨h.hasVariantTags, fun v hv => ?_⟩
    exact (hasVariant_iff htags hold htag).mp (h.hasVariant hvariants hv)
  · rintro ⟨hvariantTags, hkeeps⟩
    have hsame : old.SameVariantTags sum := (exists_sum_iff htags hold htag).mp hvariantTags
    refine ⟨old, hold, htag, hsame, fun o ho => ?_⟩
    obtain ⟨v, hv, htagEq⟩ := List.mem_map.mp (hsame.1 (List.mem_map_of_mem ho))
    obtain ⟨w, hw, hstructure⟩ := (keeps_iff htags hold).mp (hkeeps v hv)
    have hwo : w = o := Domain.variant_unique htags hold hw ho
      ((Tuple.tag_eq_of_sameStructure hstructure).trans htagEq)
    exact ⟨v, hv, hwo ▸ hstructure⟩

end Counterpart

/-- What the difference says of a sum, told by the structures and the tags of the source. -/
theorem sumEmission?_eq {sum : Sum} (hvariants : (sum.variants.map (·.tag)).Nodup) :
    (sumEmission? source sum).map (fun emission => emittedSum (sum, emission)) =
      sumSince? source sum := by
  unfold sumEmission? sumSince?
  cases hlast : source.lastSum? sum.tag with
  | none =>
    have hnone : ∀ old ∈ source.sums, old.tag ≠ sum.tag := by
      intro old hold htag
      have hsome := (Domain.lastSum?_eq_some_iff htags).mpr ⟨hold, htag⟩
      rw [hlast] at hsome
      cases hsome
    have hsum : ¬ source.HasSum sum := fun ⟨old, hold, htag, _⟩ => hnone old hold htag
    have htagSet : ¬ source.HasVariantTags sum := fun ⟨old, hold, htag, _⟩ => hnone old hold htag
    have hvariant (v : Tuple) : ¬ source.HasVariant sum v :=
      fun ⟨old, hold, htag, _⟩ => hnone old hold htag
    simp [hsum, htagSet, hvariant, emittedSum, emittedTuple, Domain.evolutionOf]
  | some old =>
    obtain ⟨hold, htag⟩ := (Domain.lastSum?_eq_some_iff htags).mp hlast
    have hmem : sum.tag ∈ source.tags := by
      rw [← htag]
      exact Domain.sum_tag_mem_tags hold
    simp only [hasSum_iff htags hold htag hvariants, hasVariantTags_iff htags hold htag,
      hasVariant_iff htags hold htag, hmem, if_true]
    by_cases hsame : old.sameVariants sum = true
    · simp only [hsame, if_true, true_and]
      cases hfilter : sum.variants.filter (!old.keeps ·) with
      | nil =>
        have hkeeps : ∀ v ∈ sum.variants, old.keeps v = true := by
          simpa [List.filter_eq_nil_iff] using hfilter
        rw [if_pos hkeeps]
        rfl
      | cons first rest =>
        have hnot : ¬ ∀ v ∈ sum.variants, old.keeps v = true := by
          intro hkeeps
          have hnil : sum.variants.filter (!old.keeps ·) = [] := by
            simpa [List.filter_eq_nil_iff] using hkeeps
          rw [hfilter] at hnil
          cases hnil
        have hdecide : (sum.variants.filter fun v => decide ¬ old.keeps v = true) =
            first :: rest := by
          rw [← hfilter]
          simp
        rw [if_neg hnot, hdecide]
        simp [emittedSum, emittedTuple]
    · simp [hsame, emittedSum, emittedTuple, variantEvolution_eq htags hold]

end Source

/-! ### Emission of synthesized members -/

theorem fst_mem_of_mem_tupleEmissions {source destination : Domain} {emission : Emission}
    (h : emission ∈ tupleEmissions source destination) : emission.1 ∈ destination.tuples := by
  obtain ⟨tuple, htuple, heq⟩ := List.mem_filterMap.mp h
  obtain ⟨_, _, rfl⟩ := Option.map_eq_some_iff.mp heq
  exact htuple

/-- Of a sum, only variants are emitted. -/
theorem fst_mem_variants_of_sumEmission? {source : Domain} {sum : Sum} {evolution : Evolution}
    {kept : List Emission} (h : sumEmission? source sum = some (evolution, kept)) :
    ∀ emission ∈ kept, emission.1 ∈ sum.variants := by
  unfold sumEmission? at h
  intro emission hemission
  split at h
  · cases h
    obtain ⟨v, hv, rfl⟩ := List.mem_map.mp hemission
    exact hv
  · split at h
    · split at h
      · cases h
      · cases h
        obtain ⟨v, hv, rfl⟩ := List.mem_map.mp hemission
        exact List.mem_of_mem_filter hv
    · cases h
      obtain ⟨v, hv, rfl⟩ := List.mem_map.mp hemission
      exact hv

/-- A tuple whose derived fields are up to date is emitted as it is. -/
theorem emitTuple_eq_ok {domain member : String} {emission : Emission}
    (h : emission.1.Derived) : emitTuple domain member emission = .ok (emittedTuple emission) := by
  rw [emitTuple, h.refresh]
  rfl

/-- A sum is emitted as it is if the derived fields of its variants are up to date. -/
theorem emitSum_eq_ok {domain : String} {emission : Sum × Evolution × List Emission}
    (h : ∀ kept ∈ emission.2.2, kept.1.Derived) :
    emitSum domain emission = .ok (emittedSum emission) := by
  unfold emitSum
  exact bind_eq_ok_iff.mpr ⟨_, mapM_eq_ok_map fun kept hkept => emitTuple_eq_ok (h kept hkept), rfl⟩

/-- The difference domain, told by the structures and the tags of the source. -/
def domainSince (source destination : Domain) : Domain where
  name := source.name ++ "To" ++ destination.name ++ "Difference"
  tag := source.tag ++ "_to_" ++ destination.tag
  tuples := tuplesSince source destination
  sums := destination.sums.filterMap (sumSince? source)

section Coherent

variable {source destination : Domain} (hsource : source.tags.Nodup)
include hsource

theorem map_emittedTuple_tupleEmissions :
    (tupleEmissions source destination).map emittedTuple = tuplesSince source destination := by
  unfold tupleEmissions tuplesSince
  simp only [tupleEvolution?_eq hsource]
  rw [List.map_filterMap]
  induction destination.tuples with
  | nil => rfl
  | cons tuple rest ih =>
    by_cases h : source.HasTuple tuple
    · rw [List.filterMap_cons_none (by simp [h]), ih, List.filter_cons_of_neg (by simp [h])]
    · rw [List.filterMap_cons, if_neg h, ih, List.filter_cons_of_pos (by simp [h])]
      rfl

theorem map_emittedSum_sumEmissions (hdestination : destination.tags.Nodup) :
    (sumEmissions source destination).map emittedSum =
      destination.sums.filterMap (sumSince? source) := by
  unfold sumEmissions
  rw [List.map_filterMap]
  refine List.filterMap_congr fun sum hsum => ?_
  rw [← sumEmission?_eq hsource (Domain.nodup_variant_tags hdestination hsum).of_cons,
    Option.map_map]
  rfl

/-- The transform to a coherent destination can only fail for a removed reference, and otherwise
holds the members that the source does not have. -/
theorem between_eq (hdestination : destination.Coherent) :
    Transform.between source destination =
      match removedReference? (removedTags source destination)
          (domainSince source destination) with
      | some (member, property) =>
        .error (.removedTagReferenced source.tag destination.tag member property.tag
          property.rawType)
      | none => .ok {
          difference := domainSince source destination
          sourceName := source.name
          destinationName := destination.name
          removedTags := removedTags source destination } := by
  have htuples : (tupleEmissions source destination).mapM (fun emission =>
      emitTuple destination.tag emission.1.tag emission) =
        .ok (tuplesSince source destination) := by
    rw [← map_emittedTuple_tupleEmissions hsource]
    refine mapM_eq_ok_map fun emission hemission => emitTuple_eq_ok ?_
    exact hdestination.derived _
      (List.mem_append_left _ (fst_mem_of_mem_tupleEmissions hemission))
  have hsums : (sumEmissions source destination).mapM (emitSum destination.tag) =
      .ok (destination.sums.filterMap (sumSince? source)) := by
    rw [← map_emittedSum_sumEmissions hsource hdestination.tags]
    refine mapM_eq_ok_map fun emission hemission => emitSum_eq_ok fun kept hkept => ?_
    obtain ⟨sum, hsum, heq⟩ := List.mem_filterMap.mp hemission
    obtain ⟨⟨evolution, variants⟩, hemit, rfl⟩ := Option.map_eq_some_iff.mp heq
    have hmem := fst_mem_variants_of_sumEmission? hemit kept hkept
    exact hdestination.derived _
      (List.mem_append_right _ (List.mem_flatMap.mpr ⟨sum, hsum, hmem⟩))
  unfold Transform.between
  rw [htuples]
  change (List.mapM (emitSum destination.tag) (sumEmissions source destination) >>= _) = _
  rw [hsums]
  rfl

end Coherent

/-! ### Emitted members and those they come from -/

/-- An emitted tuple comes from one of the destination that the source does not have. -/
theorem mem_tuplesSince {source destination : Domain} {emitted : Tuple}
    (h : emitted ∈ tuplesSince source destination) :
    ∃ tuple ∈ destination.tuples, ¬ source.HasTuple tuple ∧
      emitted = tuple.withEvolution emitted.evolution := by
  obtain ⟨tuple, htuple, rfl⟩ := List.mem_map.mp h
  obtain ⟨hmem, hnot⟩ := List.mem_filter.mp htuple
  exact ⟨tuple, hmem, of_decide_eq_true hnot, rfl⟩

/-- What does not depend on the evolution of tuples, emitted tuples have of the destination's, in
its order. -/
theorem map_tuplesSince_sublist {β : Type} {key : Tuple → β}
    (hkey : ∀ tuple evolution, key (tuple.withEvolution evolution) = key tuple)
    (source destination : Domain) :
    ((tuplesSince source destination).map key).Sublist (destination.tuples.map key) := by
  rw [tuplesSince, List.map_map]
  simp only [Function.comp_def, hkey]
  exact List.filter_sublist.map _

/-- An emitted sum keeps its tag, and its variants come from those of the destination. -/
theorem eq_of_sumSince?_eq_some {source : Domain} {sum emitted : Sum}
    (h : sumSince? source sum = some emitted) : emitted.tag = sum.tag ∧
      ∀ v ∈ emitted.variants, ∃ w ∈ sum.variants, v = w.withEvolution v.evolution := by
  unfold sumSince? at h
  split at h
  · cases h
  · split at h
    · cases h
      refine ⟨rfl, fun v hv => ?_⟩
      obtain ⟨w, hw, rfl⟩ := List.mem_map.mp hv
      exact ⟨w, List.mem_of_mem_filter hw, rfl⟩
    · cases h
      refine ⟨rfl, fun v hv => ?_⟩
      obtain ⟨w, hw, rfl⟩ := List.mem_map.mp hv
      exact ⟨w, hw, rfl⟩

/-- An emitted tuple or variant comes from one of the destination. -/
theorem exists_mem_of_mem_allTuples {source destination : Domain} {emitted : Tuple}
    (h : emitted ∈ (domainSince source destination).allTuples) :
    ∃ new ∈ destination.allTuples, emitted = new.withEvolution emitted.evolution := by
  rcases List.mem_append.mp h with hemitted | hemitted
  · obtain ⟨tuple, htuple, _, heq⟩ := mem_tuplesSince hemitted
    exact ⟨tuple, List.mem_append_left _ htuple, heq⟩
  · obtain ⟨emittedSum, hsum, hv⟩ := List.mem_flatMap.mp hemitted
    obtain ⟨sum, hsum, hsome⟩ := List.mem_filterMap.mp hsum
    obtain ⟨w, hw, heq⟩ := (eq_of_sumSince?_eq_some hsome).2 _ hv
    exact ⟨w, List.mem_append_right _ (List.mem_flatMap.mpr ⟨sum, hsum, hw⟩), heq⟩

/-- What a transform between coherent domains says. -/
theorem isTransform_of_between {source destination : Domain} {transform : Transform}
    (hsource : source.tags.Nodup) (hdestination : destination.Coherent)
    (hok : Transform.between source destination = .ok transform) :
    IsTransform source destination transform := by
  rw [between_eq hsource hdestination] at hok
  split at hok
  · cases hok
  · cases hok
    refine ⟨rfl, ?_, rfl, fun _ h => exists_mem_of_mem_allTuples h, ?_, rfl, rfl, rfl, rfl⟩
    · have hnodup := Domain.nodup_tuple_tags hdestination.tags
      have hsublist := map_tuplesSince_sublist Tuple.tag_withEvolution source destination
      exact (hnodup.sublist hsublist).of_map
    · simp [removedTags]

/-- **What the difference of two synthesized domains holds.** -/
theorem between_isTransform {old new : Decl.Domain} {source destination : Domain}
    {transform : Transform} (hsource : Domain.synthesize old = .ok source)
    (hdestination : Domain.synthesize new = .ok destination)
    (hok : Transform.between source destination = .ok transform) :
    IsTransform source destination transform :=
  isTransform_of_between (Synthesis.coherent_of_synthesize hsource).tags
    (Synthesis.coherent_of_synthesize hdestination) hok

/-- A declared domain before its members moved. -/
def beforeMoves : Decl.Domain where
  tag := "v1"
  tuples := [⟨"gone", .product, []⟩, ⟨"down", .product, []⟩]
  sums := [⟨"shrunk", [⟨"up", .product, []⟩, ⟨"kept", .product, []⟩]⟩,
    ⟨"same", [⟨"item", .product, [⟨"value", "int", .required⟩]⟩, ⟨"none", .record, []⟩]⟩]

/-- The domain after a variant moved to the top and a tuple became a variant, after one sum lost a
variant, and after a variant of another sum changed. -/
def afterMoves : Decl.Domain where
  tag := "v2"
  tuples := [⟨"up", .product, []⟩, ⟨"fresh", .product, []⟩]
  sums := [⟨"shrunk", [⟨"kept", .product, []⟩]⟩, ⟨"other", [⟨"down", .product, []⟩]⟩,
    ⟨"same", [⟨"none", .record, []⟩, ⟨"item", .product, [⟨"value", "int", .optional⟩]⟩]⟩]

theorem between_isTransform_moves :
    ∃ source destination transform, Domain.synthesize beforeMoves = .ok source ∧
      Domain.synthesize afterMoves = .ok destination ∧
      Transform.between source destination = .ok transform ∧
      IsTransform source destination transform := by
  obtain ⟨source, destination, transform, hsource, hdestination, hok⟩ :
      ∃ source destination transform, Domain.synthesize beforeMoves = .ok source ∧
        Domain.synthesize afterMoves = .ok destination ∧
        Transform.between source destination = .ok transform :=
    ⟨_, _, _, rfl, rfl, rfl⟩
  exact ⟨source, destination, transform, hsource, hdestination, hok,
    between_isTransform hsource hdestination hok⟩

end Difference

end DomainEvolution

import DomainEvolution.Proofs.DifferenceHistory
import Mathlib.Data.List.Perm.Subperm

/-!
# The evolution of members

A difference says of each member that it holds whether it is new. A member is new to its place if
the source has nothing of the kind there; it is then added or changed, according to whether the
source knows its tag from anywhere. Every new member is held, and the others are held for company
alone. It follows that what one direction of a comparison adds is what the other direction removes.
-/

namespace DomainEvolution

/-- What a sum says of itself and then of its variants. -/
def Sum.evolutions (sum : Sum) : List (Place × Evolution) :=
  (.sum sum.tag, sum.evolution) :: sum.variants.map fun v => (.variant sum.tag v.tag, v.evolution)

namespace Domain

/-- What a domain says of its members, at their places: of its tuples, and then of each sum with its
variants. -/
def evolutions (domain : Domain) : List (Place × Evolution) :=
  domain.tuples.map (fun tuple => (.tuple tuple.tag, tuple.evolution)) ++
    domain.sums.flatMap (·.evolutions)

/-- The tags of the members that are added, in the order of the domain. -/
def addedTags (domain : Domain) : List String :=
  (domain.evolutions.filter (·.2 = .added)).map (·.1.tag)

/-- The places at which a destination has what the source does not have there: a tuple or a variant
of another structure, or a sum with other variant tags. -/
inductive New (source destination : Domain) : Place → Prop
  | tuple {tuple : Tuple} (htuple : tuple ∈ destination.tuples) (hnew : ¬ source.HasTuple tuple) :
      New source destination (.tuple tuple.tag)
  | sum {sum : Sum} (hsum : sum ∈ destination.sums) (hnew : ¬ source.HasVariantTags sum) :
      New source destination (.sum sum.tag)
  | variant {sum : Sum} {v : Tuple} (hsum : sum ∈ destination.sums) (hv : v ∈ sum.variants)
      (hnew : ¬ source.HasVariant sum v) : New source destination (.variant sum.tag v.tag)

theorem map_place_evolutions (domain : Domain) :
    domain.evolutions.map Prod.fst = domain.places := by
  simp [evolutions, places, Sum.evolutions, List.map_flatMap, Function.comp_def]

theorem map_tag_evolutions (domain : Domain) :
    domain.evolutions.map (·.1.tag) = domain.tags := by
  rw [← map_tag_places, ← map_place_evolutions, List.map_map]
  rfl

theorem evolutionOf_eq (domain : Domain) (tag : String) :
    domain.evolutionOf tag = if tag ∈ domain.tags then .changed else .added := by
  simp [evolutionOf]

theorem evolutionOf_of_mem {domain : Domain} {tag : String} (h : tag ∈ domain.tags) :
    domain.evolutionOf tag = .changed := by
  rw [evolutionOf_eq, if_pos h]

theorem evolutionOf_eq_added_iff {domain : Domain} {tag : String} :
    domain.evolutionOf tag = .added ↔ tag ∉ domain.tags := by
  simp [evolutionOf]

/-- A sum that keeps its variant tags adds none. -/
theorem HasVariantTags.tag_mem {domain : Domain} {sum : Sum} (h : domain.HasVariantTags sum)
    {v : Tuple} (hv : v ∈ sum.variants) : v.tag ∈ domain.tags := by
  obtain ⟨old, hold, -, hsame⟩ := h
  obtain ⟨w, hw, htag⟩ := List.mem_map.mp (hsame.2 (List.mem_map_of_mem hv))
  exact htag ▸ variant_tag_mem_tags hold hw

/-- Where the source has nothing at all, a member is new. -/
theorem New.of_notMem_places {source destination : Domain} {place : Place}
    (hplace : place ∈ destination.places) (hnot : place ∉ source.places) :
    New source destination place := by
  cases place with
  | tuple tag =>
    obtain ⟨tuple, htuple, rfl⟩ := tuple_mem_places.mp hplace
    refine .tuple htuple fun ⟨old, hold, hsame⟩ => hnot ?_
    exact tuple_mem_places.mpr ⟨old, hold, Tuple.tag_eq_of_sameStructure hsame⟩
  | sum tag =>
    obtain ⟨sum, hsum, rfl⟩ := sum_mem_places.mp hplace
    refine .sum hsum fun ⟨old, hold, htag, _⟩ => hnot ?_
    exact sum_mem_places.mpr ⟨old, hold, htag⟩
  | variant owner tag =>
    obtain ⟨sum, hsum, rfl, v, hv, rfl⟩ := variant_mem_places.mp hplace
    refine .variant hsum hv fun ⟨old, hold, htag, w, hw, hsame⟩ => hnot ?_
    exact variant_mem_places.mpr ⟨old, hold, htag, w, hw, Tuple.tag_eq_of_sameStructure hsame⟩

end Domain

namespace Difference

open Domain (New)

variable {source destination : Domain}

/-! ### Members that are held -/

/-- A member of an emitted sum is inherited from its place in the source, or it is new. -/
theorem evolution_of_sumSince? {sum emitted : Sum} (hsum : sum ∈ destination.sums)
    (h : sumSince? source sum = some emitted) {place : Place} {evolution : Evolution}
    (hmem : (place, evolution) ∈ emitted.evolutions) :
    (evolution = .inherited ∧ place ∈ source.places) ∨
      (New source destination place ∧ evolution = source.evolutionOf place.tag) := by
  -- An equal sum is left out; one with the same variant tags stands for its changed variants; any
  -- other is held with all its variants.
  unfold sumSince? at h
  split at h
  · cases h
  · split at h
    · rename_i htags
      cases h
      rcases List.mem_cons.mp hmem with heq | hvariant
      · cases heq
        obtain ⟨old, hold, htag, -⟩ := htags
        exact Or.inl ⟨rfl, Domain.sum_mem_places.mpr ⟨old, hold, htag⟩⟩
      · obtain ⟨_, hheld, heq⟩ := List.mem_map.mp hvariant
        obtain ⟨v, hfilter, rfl⟩ := List.mem_map.mp hheld
        obtain ⟨hv, hnot⟩ := List.mem_filter.mp hfilter
        cases heq
        have hnew : New source destination (.variant sum.tag v.tag) :=
          .variant hsum hv (of_decide_eq_true hnot)
        exact Or.inr ⟨hnew, (Domain.evolutionOf_of_mem (htags.tag_mem hv)).symm⟩
    · rename_i hnot
      cases h
      rcases List.mem_cons.mp hmem with heq | hvariant
      · cases heq
        have hnew : New source destination (.sum sum.tag) := .sum hsum hnot
        exact Or.inr ⟨hnew, (Domain.evolutionOf_eq _ _).symm⟩
      · obtain ⟨_, hheld, heq⟩ := List.mem_map.mp hvariant
        obtain ⟨v, hv, rfl⟩ := List.mem_map.mp hheld
        cases heq
        by_cases hkept : source.HasVariant sum v
        · obtain ⟨old, hold, htag, w, hw, hsame⟩ := id hkept
          have hplace : .variant sum.tag v.tag ∈ source.places :=
            Domain.variant_mem_places.mpr
              ⟨old, hold, htag, w, hw, Tuple.tag_eq_of_sameStructure hsame⟩
          exact Or.inl ⟨if_pos hkept, hplace⟩
        · have hnew : New source destination (.variant sum.tag v.tag) := .variant hsum hv hkept
          exact Or.inr ⟨hnew, (if_neg hkept).trans (Domain.evolutionOf_eq _ _).symm⟩

/-- A member of a difference is inherited from its place in the source, or it is new and its
evolution tells whether the source knows its tag. -/
theorem evolution_of_mem_domainSince {place : Place} {evolution : Evolution}
    (h : (place, evolution) ∈ (domainSince source destination).evolutions) :
    (evolution = .inherited ∧ place ∈ source.places) ∨
      (New source destination place ∧ evolution = source.evolutionOf place.tag) := by
  rcases List.mem_append.mp h with htuple | hsum
  · obtain ⟨_, hheld, heq⟩ := List.mem_map.mp htuple
    obtain ⟨tuple, hfilter, rfl⟩ := List.mem_map.mp hheld
    obtain ⟨hmem, hnot⟩ := List.mem_filter.mp hfilter
    cases heq
    have hnew : New source destination (.tuple tuple.tag) := .tuple hmem (of_decide_eq_true hnot)
    exact Or.inr ⟨hnew, (Domain.evolutionOf_eq _ _).symm⟩
  · obtain ⟨emitted, hemitted, hmem⟩ := List.mem_flatMap.mp hsum
    obtain ⟨sum, hsum, hsome⟩ := List.mem_filterMap.mp hemitted
    exact evolution_of_sumSince? hsum hsome hmem

/-! ### New members are held -/

/-- A sum with new variant tags is held as a new one. -/
theorem sum_mem_evolutions_of_sumSince? {sum emitted : Sum}
    (h : sumSince? source sum = some emitted) (hnew : ¬ source.HasVariantTags sum) :
    (.sum sum.tag, source.evolutionOf sum.tag) ∈ emitted.evolutions := by
  have hsum : ¬ source.HasSum sum := fun hsame => hnew hsame.hasVariantTags
  rw [sumSince?, if_neg hsum, if_neg hnew] at h
  cases h
  rw [Domain.evolutionOf_eq]
  exact List.mem_cons_self

/-- A new variant is held with its sum. -/
theorem variant_mem_evolutions_of_sumSince? {sum emitted : Sum}
    (h : sumSince? source sum = some emitted) {v : Tuple} (hv : v ∈ sum.variants)
    (hnew : ¬ source.HasVariant sum v) :
    (.variant sum.tag v.tag, source.evolutionOf v.tag) ∈ emitted.evolutions := by
  unfold sumSince? at h
  split at h
  · cases h
  · split at h
    · rename_i htags
      cases h
      -- The sum keeps its variant tags, and so a new variant cannot be an added one.
      rw [Domain.evolutionOf_of_mem (htags.tag_mem hv)]
      have hheld : v ∈ sum.variants.filter (¬ source.HasVariant sum ·) :=
        List.mem_filter.mpr ⟨hv, decide_eq_true hnew⟩
      exact List.mem_cons_of_mem _ (List.mem_map.mpr ⟨_, List.mem_map_of_mem hheld, rfl⟩)
    · cases h
      refine List.mem_cons_of_mem _ (List.mem_map.mpr ⟨_, List.mem_map_of_mem hv, ?_⟩)
      simp [hnew, Domain.evolutionOf]

/-- Every new member is held by the difference. -/
theorem mem_evolutions_domainSince (hdestination : destination.tags.Nodup) {place : Place}
    (h : New source destination place) :
    (place, source.evolutionOf place.tag) ∈ (domainSince source destination).evolutions := by
  have hheld {sum emitted : Sum} (hsum : sum ∈ destination.sums)
      (hsome : sumSince? source sum = some emitted) {entry : Place × Evolution}
      (hmem : entry ∈ emitted.evolutions) :
      entry ∈ (domainSince source destination).evolutions :=
    List.mem_append_right _ (List.mem_flatMap.mpr
      ⟨emitted, List.mem_filterMap.mpr ⟨sum, hsum, hsome⟩, hmem⟩)
  cases h with
  | @tuple tuple htuple hnew =>
    have hmem : tuple.withEvolution (if tuple.tag ∈ source.tags then .changed else .added) ∈
        tuplesSince source destination :=
      List.mem_map.mpr ⟨tuple, List.mem_filter.mpr ⟨htuple, decide_eq_true hnew⟩, rfl⟩
    rw [Domain.evolutionOf_eq]
    exact List.mem_append_left _ (List.mem_map.mpr ⟨_, hmem, rfl⟩)
  | @sum sum hsum hnew =>
    obtain ⟨emitted, hsome⟩ :=
      exists_sumSince?_eq_some fun hsame : source.HasSum sum => hnew hsame.hasVariantTags
    exact hheld hsum hsome (sum_mem_evolutions_of_sumSince? hsome hnew)
  | @variant sum v hsum hv hnew =>
    have hvariants := (Domain.nodup_variant_tags hdestination hsum).of_cons
    have hsumNew : ¬ source.HasSum sum := fun hsame => hnew (hsame.hasVariant hvariants hv)
    obtain ⟨emitted, hsome⟩ := exists_sumSince?_eq_some hsumNew
    exact hheld hsum hsome (variant_mem_evolutions_of_sumSince? hsome hv hnew)

/-! ### Removed and added tags -/

/-- Where no item repeats, a part that keeps all items with a property has the same such items. -/
theorem filter_eq_filter_of_sublist {α : Type} {p : α → Bool} {part items : List α}
    (hpart : part.Sublist items) (hnodup : items.Nodup) (hkept : ∀ a ∈ items, p a → a ∈ part) :
    part.filter p = items.filter p := by
  refine (hpart.filter p).eq_of_length_le ((hnodup.filter p).subperm fun a ha => ?_).length_le
  obtain ⟨hmem, hp⟩ := List.mem_filter.mp ha
  exact List.mem_filter.mpr ⟨hkept a hmem hp, hp⟩

/-- The members of a difference that are added are those whose tags the source does not know. -/
theorem evolution_eq_added_iff {entry : Place × Evolution}
    (h : entry ∈ (domainSince source destination).evolutions) :
    entry.2 = .added ↔ entry.1.tag ∉ source.tags := by
  obtain ⟨place, evolution⟩ := entry
  rcases evolution_of_mem_domainSince h with ⟨rfl, hplace⟩ | ⟨-, rfl⟩
  · have hknown : place.tag ∈ source.tags := Domain.mem_tags_iff.mpr ⟨place, hplace, rfl⟩
    simp [hknown]
  · exact Domain.evolutionOf_eq_added_iff

/-- A tag that the source does not know is held by the difference. -/
theorem mem_tags_domainSince (hdestination : destination.tags.Nodup) {tag : String}
    (htag : tag ∈ destination.tags) (hnot : tag ∉ source.tags) :
    tag ∈ (domainSince source destination).tags := by
  obtain ⟨place, hplace, rfl⟩ := Domain.mem_tags_iff.mp htag
  have hnew : New source destination place :=
    .of_notMem_places hplace fun hold => hnot (Domain.mem_tags_iff.mpr ⟨place, hold, rfl⟩)
  rw [← Domain.map_tag_evolutions]
  exact List.mem_map.mpr ⟨_, mem_evolutions_domainSince hdestination hnew, rfl⟩

/-- A difference adds the tags of the destination that the source does not know, in the order of the
destination. -/
theorem addedTags_domainSince (hdestination : destination.tags.Nodup) :
    (domainSince source destination).addedTags = removedTags destination source := by
  have hadded : ∀ entry ∈ (domainSince source destination).evolutions,
      decide (entry.2 = .added) = !source.tags.contains entry.1.tag := by
    intro entry hentry
    rw [Bool.eq_iff_iff]
    simpa using evolution_eq_added_iff hentry
  -- Among the members of the difference, to be added is a matter of the tag alone, so that the
  -- filter may as well be applied to the tags.
  calc (domainSince source destination).addedTags
    _ = ((domainSince source destination).evolutions.map (·.1.tag)).filter
          (!source.tags.contains ·) := by
      rw [Domain.addedTags, List.filter_congr hadded, List.filter_map]
      rfl
    _ = (domainSince source destination).tags.filter (!source.tags.contains ·) := by
      rw [Domain.map_tag_evolutions]
    _ = removedTags destination source := by
      refine filter_eq_filter_of_sublist (tags_domainSince_sublist source destination)
        hdestination fun tag htag hnot => ?_
      exact mem_tags_domainSince hdestination htag (by simpa using hnot)

/-- What a transform between coherent domains holds. -/
theorem eq_of_between {transform : Transform} (hsource : source.tags.Nodup)
    (hdestination : destination.Coherent)
    (hok : Transform.between source destination = .ok transform) :
    transform.difference = domainSince source destination ∧
      transform.removedTags = removedTags source destination := by
  rw [between_eq hsource hdestination] at hok
  split at hok
  · cases hok
  · cases hok
    exact ⟨rfl, rfl⟩

/-- **Removal and addition are dual.** The tags that get lost on the way to a destination are the
tags that the way back adds, in the same order. -/
theorem removedTags_eq_addedTags_reverse {old new : Decl.Domain} {first second : Domain}
    {forth back : Transform} (hfirst : Domain.synthesize old = .ok first)
    (hsecond : Domain.synthesize new = .ok second)
    (hforth : Transform.between first second = .ok forth)
    (hback : Transform.between second first = .ok back) :
    forth.removedTags = back.difference.addedTags := by
  have hfirstCoherent := Synthesis.coherent_of_synthesize hfirst
  have hsecondCoherent := Synthesis.coherent_of_synthesize hsecond
  have hremoved := (eq_of_between hfirstCoherent.tags hsecondCoherent hforth).2
  have hdifference := (eq_of_between hsecondCoherent.tags hfirstCoherent hback).1
  rw [hremoved, hdifference, addedTags_domainSince hfirstCoherent.tags]

/-- A tuple without properties. -/
def unit (tag : String) : Decl.Tuple := ⟨tag, .product, []⟩

/-- A version that still has a tuple and a sum of its own. -/
def beforeLosses : Decl.Domain where
  tag := "v1"
  tuples := [unit "gone", unit "kept", unit "down"]
  sums := [⟨"shape", [unit "up", unit "line", unit "dot"]⟩, ⟨"mass", [unit "gram", unit "pound"]⟩]

/-- The version after a variant moved to the top and a tuple became a variant. -/
def afterLosses : Decl.Domain where
  tag := "v2"
  tuples := [unit "up", unit "kept"]
  sums := [⟨"shape", [unit "dot", unit "down"]⟩]

/-- A tuple, a variant and a sum with its variants get lost; the members that moved do not. -/
theorem removedTags_eq_addedTags_reverse_losses :
    ∃ first second forth back, Domain.synthesize beforeLosses = .ok first ∧
      Domain.synthesize afterLosses = .ok second ∧ Transform.between first second = .ok forth ∧
      Transform.between second first = .ok back ∧
      forth.removedTags = ["gone", "line", "mass", "gram", "pound"] ∧
      forth.removedTags = back.difference.addedTags := by
  obtain ⟨first, second, forth, back, hfirst, hsecond, hforth, hback, hremoved⟩ :
      ∃ first second forth back, Domain.synthesize beforeLosses = .ok first ∧
        Domain.synthesize afterLosses = .ok second ∧
        Transform.between first second = .ok forth ∧ Transform.between second first = .ok back ∧
        forth.removedTags = ["gone", "line", "mass", "gram", "pound"] := by
    refine ⟨_, _, _, _, rfl, rfl, rfl, rfl, ?_⟩
    decide +kernel
  exact ⟨first, second, forth, back, hfirst, hsecond, hforth, hback, hremoved,
    removedTags_eq_addedTags_reverse hfirst hsecond hforth hback⟩

end Difference

end DomainEvolution

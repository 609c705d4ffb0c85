import DomainEvolution.Proofs.UnchangedMembers
import DomainEvolution.Proofs.WellFormedDomain

/-!
# Histories of differences

A difference is a domain and may be compared in its turn, as a source or as a destination, however
its type names have become detached from their members. Well-formedness is what survives: each
member that is emitted is the destination's, and a sum is never emitted without variants. Between
well-formed domains nothing can go wrong but a reference to a removed tag.
-/

namespace DomainEvolution

namespace Difference

/-! ### Emitted members stand in the order of the destination -/

section Order

variable {β : Type} {key : Tuple → β}
  (hkey : ∀ tuple evolution, key (tuple.withEvolution evolution) = key tuple)
include hkey

theorem map_variants_sublist {source : Domain} {sum emitted : Sum}
    (h : sumSince? source sum = some emitted) :
    (emitted.variants.map key).Sublist (sum.variants.map key) := by
  unfold sumSince? at h
  split at h
  · cases h
  · split at h
    · cases h
      simp only [List.map_map, Function.comp_def, hkey]
      exact List.filter_sublist.map _
    · cases h
      simp only [List.map_map, Function.comp_def, hkey]
      exact .refl _

end Order

/-- What is read of each emitted sum and is part of what is read of the destination's sum, is part
of what is read of all of them. -/
theorem flatMap_sums_sublist {γ : Type} {read : Sum → List γ} {source : Domain}
    (hread : ∀ sum emitted, sumSince? source sum = some emitted →
      (read emitted).Sublist (read sum)) (sums : List Sum) :
    ((sums.filterMap (sumSince? source)).flatMap read).Sublist (sums.flatMap read) := by
  induction sums with
  | nil => exact .refl _
  | cons sum rest ih =>
    rw [List.filterMap_cons, List.flatMap_cons]
    split
    · exact ih.trans (List.sublist_append_right _ _)
    · rename_i emitted hemitted
      rw [List.flatMap_cons]
      exact (hread sum emitted hemitted).append ih

theorem tags_domainSince_sublist (source destination : Domain) :
    (domainSince source destination).tags.Sublist destination.tags := by
  refine (map_tuplesSince_sublist Tuple.tag_withEvolution source destination).append ?_
  refine flatMap_sums_sublist (fun sum emitted h => ?_) destination.sums
  rw [(eq_of_sumSince?_eq_some h).1]
  exact (map_variants_sublist Tuple.tag_withEvolution h).cons_cons _

theorem constructorNames_domainSince_sublist (source destination : Domain) :
    ((domainSince source destination).allTuples.map (·.constructorName)).Sublist
      (destination.allTuples.map (·.constructorName)) := by
  have hkey (tuple : Tuple) (evolution : Evolution) :
      (tuple.withEvolution evolution).constructorName = tuple.constructorName := rfl
  rw [Domain.allTuples, Domain.allTuples, List.map_append, List.map_append, List.map_flatMap,
    List.map_flatMap]
  refine (map_tuplesSince_sublist hkey source destination).append ?_
  exact flatMap_sums_sublist (fun _ _ h => map_variants_sublist hkey h) destination.sums

/-! ### Differences are well formed -/

section Source

variable {source : Domain} (hsource : source.tags.Nodup)
include hsource

/-- A sum that keeps its variant tags and of whose variants none changed, did not change. -/
theorem hasSum_of_hasVariant {sum : Sum} (hvariants : (sum.variants.map (·.tag)).Nodup)
    (htags : source.HasVariantTags sum) (hall : ∀ v ∈ sum.variants, source.HasVariant sum v) :
    source.HasSum sum := by
  obtain ⟨old, hold, htag, -⟩ := id htags
  rw [hasSum_iff hsource hold htag hvariants, ← hasVariantTags_iff hsource hold htag]
  exact ⟨htags, fun v hv => (hasVariant_iff hsource hold htag).mp (hall v hv)⟩

/-- A sum is emitted with some of its variants. -/
theorem variants_ne_nil_of_sumSince? {sum emitted : Sum} (hne : sum.variants ≠ [])
    (hvariants : (sum.variants.map (·.tag)).Nodup) (h : sumSince? source sum = some emitted) :
    emitted.variants ≠ [] := by
  unfold sumSince? at h
  split at h
  · cases h
  · rename_i hnot
    split at h
    · rename_i htags
      cases h
      intro hnil
      rw [List.map_eq_nil_iff, List.filter_eq_nil_iff] at hnil
      exact hnot (hasSum_of_hasVariant hsource hvariants htags (by simpa using hnil))
    · cases h
      simpa using hne

/-- What a well-formed domain adds to a source, or changes of it, is a well-formed domain. -/
theorem wellFormed_domainSince {destination : Domain} (h : destination.WellFormed) :
    (domainSince source destination).WellFormed where
  tags := h.tags.sublist (tags_domainSince_sublist source destination)
  constructors := h.constructors.sublist (constructorNames_domainSince_sublist source destination)
  sums emitted hemitted := by
    obtain ⟨sum, hsum, hsome⟩ := List.mem_filterMap.mp hemitted
    exact variants_ne_nil_of_sumSince? hsource (h.sums sum hsum)
      (Domain.nodup_variant_tags h.tags hsum).of_cons hsome
  tuples emitted hemitted := by
    obtain ⟨new, hnew, heq⟩ := exists_mem_of_mem_allTuples hemitted
    rw [heq]
    exact (h.tuples new hnew).withEvolution _

end Source

section WellFormed

variable {source destination : Domain} (hsource : source.WellFormed)
  (hdestination : destination.WellFormed)
include hsource hdestination

/-- The difference between well-formed domains is well formed. -/
theorem wellFormed_of_between {transform : Transform}
    (hok : Transform.between source destination = .ok transform) :
    transform.difference.WellFormed := by
  rw [between_eq hsource.tags hdestination.coherent] at hok
  split at hok
  · cases hok
  · cases hok
    exact wellFormed_domainSince hsource.tags hdestination

/-- Between well-formed domains, only a reference to a removed tag can stand in the way. -/
theorem removedTagReferenced_of_between {e : CompileError}
    (herror : Transform.between source destination = .error e) :
    ∃ member property tag,
      e = .removedTagReferenced source.tag destination.tag member property tag := by
  rw [between_eq hsource.tags hdestination.coherent] at herror
  split at herror
  · rename_i member property _
    cases herror
    exact ⟨member, property.tag, property.rawType, rfl⟩
  · cases herror

end WellFormed

/-- The difference between a well-formed domain and itself is empty. -/
theorem exists_between_self {domain : Domain} (h : domain.WellFormed) :
    ∃ transform, Transform.between domain domain = .ok transform ∧
      transform.difference.isEmpty = true ∧ transform.removedTags = [] := by
  have hsame : domain.SameMembers domain :=
    .of_subset h.tags h.tags (List.Subset.refl _) (List.Subset.refl _)
  exact unchanged_of_sameMembers hsame h.tags h.coherent

end Difference

namespace Domain

/-- How a further domain is got from those at hand: from a declaration, or as the difference
between two of them. -/
inductive Step (known : List Domain) : Domain → Prop
  | synthesis {decl : Decl.Domain} {domain : Domain}
      (h : Domain.synthesize decl = .ok domain) : Step known domain
  | difference {source destination : Domain} {transform : Transform} (hsource : source ∈ known)
      (hdestination : destination ∈ known)
      (h : Transform.between source destination = .ok transform) : Step known transform.difference

/-- The domains that are got step by step, the latest first. -/
inductive History : List Domain → Prop
  | start : History []
  | step {known : List Domain} {domain : Domain} (h : History known) (hstep : Step known domain) :
      History (domain :: known)

/-- One step from well-formed domains leads to a well-formed domain. -/
theorem Step.wellFormed {known : List Domain} {domain : Domain} (hstep : Step known domain)
    (hknown : ∀ d ∈ known, d.WellFormed) : domain.WellFormed := by
  cases hstep with
  | synthesis h => exact Synthesis.wellFormed_of_synthesize h
  | difference hsource hdestination h =>
    exact Difference.wellFormed_of_between (hknown _ hsource) (hknown _ hdestination) h

/-- All domains of a history are well formed. -/
theorem History.wellFormed {known : List Domain} (h : History known) :
    ∀ domain ∈ known, domain.WellFormed := by
  induction h with
  | start => simp
  | step _ hstep ih => exact List.forall_mem_cons.mpr ⟨hstep.wellFormed ih, ih⟩

/-- A domain of some history. -/
def Obtained (domain : Domain) : Prop := ∃ known, History known ∧ domain ∈ known

theorem Obtained.wellFormed {domain : Domain} (h : domain.Obtained) : domain.WellFormed := by
  obtain ⟨known, hknown, hmem⟩ := h
  exact hknown.wellFormed domain hmem

/-- Well-formed domains that can be compared: only a reference to a removed tag can stand in the
way, and between a domain and itself there is no difference. -/
structure Comparable (source destination : Domain) : Prop where
  wellFormed : source.WellFormed ∧ destination.WellFormed
  refusal : ∀ e, Transform.between source destination = .error e → ∃ member property tag,
    e = .removedTagReferenced source.tag destination.tag member property tag
  unchanged : ∃ transform, Transform.between source source = .ok transform ∧
    transform.difference.isEmpty = true ∧ transform.removedTags = []

/-- **Well-formedness survives any history of syntheses and differences.** -/
theorem comparable_of_obtained {source destination : Domain} (hsource : source.Obtained)
    (hdestination : destination.Obtained) : Comparable source destination where
  wellFormed := ⟨hsource.wellFormed, hdestination.wellFormed⟩
  refusal _ herror :=
    Difference.removedTagReferenced_of_between hsource.wellFormed hdestination.wellFormed herror
  unchanged := Difference.exists_between_self hsource.wellFormed

/-- Two differences, of which one was got from the other. -/
theorem comparable_of_obtained_moves : ∃ change rest : Domain, change.Obtained ∧ rest.Obtained ∧
    change.tag = "v1_to_v2" ∧ rest.tag = "v1_to_v2_to_v2" ∧ Comparable change rest := by
  obtain ⟨old, new, change, rest, hold, hnew, hchange, hrest, htag, htag'⟩ :
      ∃ (old new : Domain) (change rest : Transform),
        Domain.synthesize Difference.beforeMoves = .ok old ∧
        Domain.synthesize Difference.afterMoves = .ok new ∧
        Transform.between old new = .ok change ∧
        Transform.between change.difference new = .ok rest ∧
        change.difference.tag = "v1_to_v2" ∧ rest.difference.tag = "v1_to_v2_to_v2" :=
    ⟨_, _, _, _, rfl, rfl, rfl, rfl, rfl, rfl⟩
  have hdeclared : History [new, old] :=
    .step (.step .start (.synthesis hold)) (.synthesis hnew)
  have hfirst : History [change.difference, new, old] :=
    hdeclared.step (.difference (by simp) (by simp) hchange)
  have hsecond : History [rest.difference, change.difference, new, old] :=
    hfirst.step (.difference (by simp) (by simp) hrest)
  have hchangeObtained : change.difference.Obtained := ⟨_, hsecond, by simp⟩
  have hrestObtained : rest.difference.Obtained := ⟨_, hsecond, by simp⟩
  exact ⟨change.difference, rest.difference, hchangeObtained, hrestObtained, htag, htag',
    comparable_of_obtained hchangeObtained hrestObtained⟩

end Domain

end DomainEvolution

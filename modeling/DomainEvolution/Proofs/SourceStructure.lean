import DomainEvolution.Proofs.Rearrangement

/-!
# What a difference reads of its source

Two sources of one name and one tag whose members have the same structures are the same source to a
comparison, in whatever order the members stand and whatever their generated and derived fields
hold. Looking a tag up finds members of one structure in both, so that the same members of the
destination are emitted; and whether a removed tag is referred to depends only on which tags those
are.
-/

namespace DomainEvolution

/-- Lists whose items belong together in pairs, in whatever order. -/
def PairedUp {α : Type} (R : α → α → Prop) (items others : List α) : Prop :=
  ∃ middle, items.Perm middle ∧ List.Forall₂ R middle others

/-- Tuples that a comparison does not tell apart. -/
def Tuple.Resembles (tuple other : Tuple) : Prop := tuple.skeleton = other.skeleton

/-- Sums of one tag whose variants a comparison does not tell apart, in whatever order. -/
structure Sum.Resembles (sum other : Sum) : Prop where
  tag : sum.tag = other.tag
  variants : PairedUp Tuple.Resembles sum.variants other.variants

/-- Domains of one name and one tag whose members a comparison does not tell apart, in whatever
order. -/
structure Domain.Resembles (domain other : Domain) : Prop where
  name : domain.name = other.name
  tag : domain.tag = other.tag
  tuples : PairedUp Tuple.Resembles domain.tuples other.tuples
  sums : PairedUp Sum.Resembles domain.sums other.sums

/-- A tag determines a tuple among the tuples at the top, a sum among the sums, and a variant among
the variants of a sum. A tuple may still share its tag with a sum or a variant. -/
structure Domain.Addressable (domain : Domain) : Prop where
  tuples : (domain.tuples.map (·.tag)).Nodup
  sums : (domain.sums.map (·.tag)).Nodup
  variants : ∀ sum ∈ domain.sums, (sum.variants.map (·.tag)).Nodup

/-- Outcomes of comparisons that say the same: one error, or transforms that differ in the order of
the removed tags at most. -/
inductive Transform.Alike : Except CompileError Transform → Except CompileError Transform → Prop
  | refused (e : CompileError) : Alike (.error e) (.error e)
  | computed {first second : Transform} (difference : first.difference = second.difference)
      (sourceName : first.sourceName = second.sourceName)
      (destinationName : first.destinationName = second.destinationName)
      (removedTags : first.removedTags.Perm second.removedTags) : Alike (.ok first) (.ok second)

/-! ### Reading paired lists -/

namespace PairedUp

variable {α β : Type} {R : α → α → Prop} {items others : List α}

/-- What is read alike of paired items, is read of both lists up to order. -/
theorem map_perm {read : α → β} (hread : ∀ a b, R a b → read a = read b)
    (h : PairedUp R items others) : (items.map read).Perm (others.map read) := by
  obtain ⟨middle, hperm, hall⟩ := h
  have heq : middle.map read = others.map read := by
    rw [← List.forall₂_eq_eq_eq, List.forall₂_map_left_iff, List.forall₂_map_right_iff]
    exact hall.imp hread
  exact heq ▸ hperm.map read

/-- What is read of paired items up to order, is read of both lists up to order. -/
theorem flatMap_perm {read : α → List β} (hread : ∀ a b, R a b → (read a).Perm (read b))
    (h : PairedUp R items others) : (items.flatMap read).Perm (others.flatMap read) := by
  obtain ⟨middle, hperm, hall⟩ := h
  exact (hperm.flatMap_right read).trans (Decl.flatMap_perm_of_forall₂ hread hall)

variable {key : α → String}

/-- In lists that are paired in order, a search finds a pair or nothing. -/
theorem rel_find?_of_forall₂ (hkey : ∀ a b, R a b → key a = key b)
    (h : List.Forall₂ R items others) (k : String) :
    Option.Rel R (items.find? (key · == k)) (others.find? (key · == k)) := by
  induction h with
  | nil => exact .none
  | @cons a b items others hab _ ih =>
    rw [List.find?_cons, List.find?_cons, hkey a b hab]
    cases key b == k with
    | true => exact .some hab
    | false => exact ih

/-- Where keys do not repeat, a search from the end finds a pair or nothing. -/
theorem rel_find? (hkey : ∀ a b, R a b → key a = key b) (hnodup : (items.map key).Nodup)
    (h : PairedUp R items others) (k : String) :
    Option.Rel R (items.reverse.find? (key · == k)) (others.reverse.find? (key · == k)) := by
  obtain ⟨middle, hperm, hall⟩ := h
  have hmiddle : (middle.map key).Nodup := (hperm.map key).nodup hnodup
  -- The two searches of lists that are permutations of each other find the same item.
  have hsame : items.reverse.find? (key · == k) = middle.reverse.find? (key · == k) := by
    refine Option.ext fun item => ?_
    rw [reverse_find?_eq_some_iff hnodup, reverse_find?_eq_some_iff hmiddle, hperm.mem_iff]
  rw [hsame]
  exact rel_find?_of_forall₂ hkey (List.forall₂_reverse_iff.mpr hall) k

end PairedUp

theorem Tuple.Resembles.tag {tuple other : Tuple} (h : tuple.Resembles other) :
    tuple.tag = other.tag :=
  congrArg Skeleton.tag h

theorem Tuple.Resembles.sameStructure {tuple other : Tuple} (h : tuple.Resembles other)
    (new : Tuple) : tuple.sameStructure new = other.sameStructure new := by
  rw [Tuple.sameStructure, Tuple.sameStructure, h]

/-! ### What is read of one sum -/

namespace Sum.Resembles

variable {sum other : Sum} (h : sum.Resembles other)
include h

theorem variantTags : sum.variantTags.Perm other.variantTags :=
  h.variants.map_perm fun _ _ hv => hv.tag

theorem sameVariants (new : Sum) : sum.sameVariants new = other.sameVariants new := by
  unfold Sum.sameVariants
  simp only [h.tag, h.variantTags.all_eq, h.variantTags.contains_eq]

variable (hvariants : (sum.variants.map (·.tag)).Nodup)
include hvariants

theorem lastVariant? (tag : String) :
    Option.Rel Tuple.Resembles (sum.lastVariant? tag) (other.lastVariant? tag) :=
  h.variants.rel_find? (fun _ _ hv => hv.tag) hvariants tag

theorem keeps (new : Tuple) : sum.keeps new = other.keeps new := by
  unfold Sum.keeps
  have hlast := h.lastVariant? hvariants new.tag
  generalize sum.lastVariant? new.tag = old, other.lastVariant? new.tag = old' at hlast ⊢
  cases hlast with
  | none => rfl
  | some hv => exact hv.sameStructure new

end Sum.Resembles

/-! ### What is read of the source -/

namespace Difference

variable {source other : Domain} (h : source.Resembles other)
include h

theorem tags_perm_of_resembles : source.tags.Perm other.tags := by
  refine (h.tuples.map_perm fun _ _ ht => ht.tag).append (h.sums.flatMap_perm fun s t hs => ?_)
  rw [hs.tag]
  exact hs.variantTags.cons _

theorem evolutionOf_of_resembles (tag : String) :
    source.evolutionOf tag = other.evolutionOf tag := by
  rw [Domain.evolutionOf, Domain.evolutionOf, (tags_perm_of_resembles h).contains_eq]

theorem removedTags_of_resembles (destination : Domain) :
    (removedTags source destination).Perm (removedTags other destination) :=
  (tags_perm_of_resembles h).filter _

variable (haddressable : source.Addressable)
include haddressable

/-- A tuple is as new to the one source as to the other. -/
theorem tupleEvolution?_of_resembles (tuple : Tuple) :
    tupleEvolution? source tuple = tupleEvolution? other tuple := by
  have hlast : Option.Rel Tuple.Resembles (source.lastTuple? tuple.tag)
      (other.lastTuple? tuple.tag) :=
    h.tuples.rel_find? (fun _ _ ht => ht.tag) haddressable.tuples tuple.tag
  unfold tupleEvolution?
  generalize source.lastTuple? tuple.tag = old, other.lastTuple? tuple.tag = old' at hlast ⊢
  cases hlast with
  | none => exact congrArg some (evolutionOf_of_resembles h tuple.tag)
  | some ht => simp only [ht.sameStructure]

omit haddressable in
/-- In sums that resemble each other, a variant has the same evolution. -/
theorem variantEvolution_of_resembles {old old' : Sum} (hsum : old.Resembles old')
    (hvariants : (old.variants.map (·.tag)).Nodup) (variant : Tuple) :
    variantEvolution source old variant = variantEvolution other old' variant := by
  have hlast := hsum.lastVariant? hvariants variant.tag
  unfold variantEvolution
  generalize old.lastVariant? variant.tag = v, old'.lastVariant? variant.tag = v' at hlast ⊢
  cases hlast with
  | none => exact evolutionOf_of_resembles h variant.tag
  | some hv => simp only [hv.sameStructure]

/-- A sum is emitted alike for the one source and for the other. -/
theorem sumEmission?_of_resembles (sum : Sum) :
    sumEmission? source sum = sumEmission? other sum := by
  have hlast : Option.Rel Sum.Resembles (source.lastSum? sum.tag) (other.lastSum? sum.tag) :=
    h.sums.rel_find? (fun _ _ hs => hs.tag) haddressable.sums sum.tag
  have hmem (old : Sum) (hold : source.lastSum? sum.tag = some old) : old ∈ source.sums :=
    List.mem_reverse.mp (List.mem_of_find?_eq_some hold)
  unfold sumEmission?
  generalize source.lastSum? sum.tag = old, other.lastSum? sum.tag = old' at hlast hmem ⊢
  cases hlast with
  | none => simp only [evolutionOf_of_resembles h]
  | @some old old' hsum =>
    have hvariants := haddressable.variants old (hmem old rfl)
    simp only [hsum.sameVariants, hsum.keeps hvariants,
      variantEvolution_of_resembles h hsum hvariants]

theorem tupleEmissions_of_resembles (destination : Domain) :
    tupleEmissions source destination = tupleEmissions other destination := by
  unfold tupleEmissions
  simp only [tupleEvolution?_of_resembles h haddressable]

theorem sumEmissions_of_resembles (destination : Domain) :
    sumEmissions source destination = sumEmissions other destination := by
  unfold sumEmissions
  simp only [sumEmission?_of_resembles h haddressable]

omit h haddressable in
/-- Whether a removed tag is referred to does not depend on the order of the removed tags. -/
theorem removedReference?_of_perm {removed removed' : List String} (hperm : removed.Perm removed')
    (difference : Domain) :
    removedReference? removed difference = removedReference? removed' difference := by
  unfold removedReference?
  simp only [hperm.contains_eq]

end Difference

/-- **Only the structure of the source shows in a comparison.** Sources of one name and one tag with
members of the same structures lead to the same error or to the same transform, up to the order in
which the removed tags are listed. -/
theorem Transform.between_alike_of_resembles {source other : Domain} (h : source.Resembles other)
    (haddressable : source.Addressable) (destination : Domain) :
    Transform.Alike (Transform.between source destination)
      (Transform.between other destination) := by
  have hremoved := Difference.removedTags_of_resembles h destination
  unfold Transform.between
  rw [Difference.tupleEmissions_of_resembles h haddressable,
    Difference.sumEmissions_of_resembles h haddressable, h.name, h.tag]
  cases (Difference.tupleEmissions other destination).mapM fun emission =>
      Difference.emitTuple destination.tag emission.1.tag emission with
  | error e => exact .refused e
  | ok tuples =>
    cases (Difference.sumEmissions other destination).mapM
        (Difference.emitSum destination.tag) with
    | error e => exact .refused e
    | ok sums =>
      simp only [Difference.removedReference?_of_perm hremoved, bind, Except.bind]
      split
      · exact .refused _
      · exact .computed rfl rfl rfl hremoved

/-! ### A source out of order -/

/-- Lists are paired up with their items, changed one by one and reversed. -/
theorem PairedUp.map_reverse {α : Type} {R : α → α → Prop} {change : α → α}
    (hchange : ∀ a, R a (change a)) (items : List α) :
    PairedUp R items (items.map change).reverse := by
  refine ⟨items.reverse, (List.reverse_perm items).symm, List.forall₂_reverse_iff.mpr ?_⟩
  rw [List.forall₂_map_right_iff, List.forall₂_same]
  exact fun a _ => hchange a

/-- A tuple with its generated and derived fields overwritten. -/
def Tuple.stale (tuple : Tuple) : Tuple where
  name := ""
  tag := tuple.tag
  constructorName := ""
  baseType := ""
  properties := tuple.properties.map fun p =>
    { p with name := "", typeName := "", typeRef := .opaqueType "", hook := ⟨"", .required⟩ }
  arity := .exact 99
  builders := []
  isRecord := tuple.isRecord
  evolution := .changed
  hasVariadic := false

theorem Tuple.resembles_stale (tuple : Tuple) : tuple.Resembles tuple.stale := by
  simp only [Tuple.Resembles, Tuple.skeleton, Tuple.stale, List.map_map]
  rfl

namespace Domain

/-- The domain with its members in reverse order and their generated and derived fields
overwritten. -/
def disordered (domain : Domain) : Domain where
  name := domain.name
  tag := domain.tag
  tuples := (domain.tuples.map Tuple.stale).reverse
  sums := (domain.sums.map fun sum =>
    { name := "", tag := sum.tag, baseType := "", evolution := .added
      variants := (sum.variants.map Tuple.stale).reverse }).reverse

theorem resembles_disordered (domain : Domain) : domain.Resembles domain.disordered where
  name := rfl
  tag := rfl
  tuples := .map_reverse Tuple.resembles_stale domain.tuples
  sums := .map_reverse
    (fun sum => ⟨rfl, .map_reverse Tuple.resembles_stale sum.variants⟩) domain.sums

/-- Where no tag repeats in the whole domain, none repeats in a part of it. -/
theorem Addressable.of_nodup {domain : Domain} (htags : domain.tags.Nodup) :
    domain.Addressable where
  tuples := nodup_tuple_tags htags
  sums := nodup_sum_tags htags
  variants _ hsum := (nodup_variant_tags htags hsum).of_cons

end Domain

namespace Transform

/-- A domain of which three members will go and one will change. -/
def catalogue : Decl.Domain where
  tag := "v1"
  tuples := [⟨"shelf", .product, []⟩, ⟨"lamp", .record, [⟨"watts", "int", .required⟩]⟩]
  sums := [⟨"seat", [⟨"chair", .product, []⟩, ⟨"stool", .product, []⟩, ⟨"bench", .record, []⟩]⟩]

/-- The next version of the domain. -/
def nextCatalogue : Decl.Domain where
  tag := "v2"
  tuples := [⟨"lamp", .record, [⟨"watts", "int", .optional⟩]⟩]
  sums := [⟨"seat", [⟨"chair", .product, []⟩]⟩]

/-- Overwriting the first version and reversing it exchanges two of the removed tags. -/
theorem between_alike_of_resembles_catalogue :
    ∃ source destination first second, Domain.synthesize catalogue = .ok source ∧
      Domain.synthesize nextCatalogue = .ok destination ∧
      source.Resembles source.disordered ∧ source.Addressable ∧
      Transform.between source destination = .ok first ∧
      Transform.between source.disordered destination = .ok second ∧
      first.removedTags = ["shelf", "stool", "bench"] ∧
      second.removedTags = ["shelf", "bench", "stool"] ∧
      Alike (.ok first) (.ok second) := by
  obtain ⟨source, destination, first, second, hsource, hdestination, hfirst, hsecond, hremoved,
      hremoved'⟩ :
      ∃ source destination first second, Domain.synthesize catalogue = .ok source ∧
        Domain.synthesize nextCatalogue = .ok destination ∧
        Transform.between source destination = .ok first ∧
        Transform.between source.disordered destination = .ok second ∧
        first.removedTags = ["shelf", "stool", "bench"] ∧
        second.removedTags = ["shelf", "bench", "stool"] :=
    ⟨_, _, _, _, rfl, rfl, rfl, rfl, rfl, rfl⟩
  have haddressable : source.Addressable :=
    .of_nodup (Synthesis.coherent_of_synthesize hsource).tags
  have halike := between_alike_of_resembles source.resembles_disordered haddressable destination
  rw [hfirst, hsecond] at halike
  exact ⟨source, destination, first, second, hsource, hdestination, source.resembles_disordered,
    haddressable, hfirst, hsecond, hremoved, hremoved', halike⟩

end Transform

end DomainEvolution

import DomainEvolution.Difference
import Mathlib.Data.List.Nodup

/-!
# Unique tags

Where no tag repeats in a domain, a tag determines its member and the place of the member: at the
top, as a sum, or as a variant of one certain sum. Looking a tag up from the end finds the only
member that has it.
-/

namespace DomainEvolution

/-- Where a member stands in a domain. -/
inductive Place where
  | tuple (tag : String)
  | sum (tag : String)
  | variant (sum tag : String)
  deriving DecidableEq, Repr

/-- The tag of the member that stands at a place. -/
def Place.tag : Place → String
  | tuple tag => tag
  | sum tag => tag
  | variant _ tag => tag

namespace Domain

variable {domain : Domain}

/-- The places at which the domain has members: its tuples, and then each sum followed by its
variants. -/
def places (domain : Domain) : List Place :=
  domain.tuples.map (.tuple ·.tag) ++
    domain.sums.flatMap fun sum => .sum sum.tag :: sum.variants.map (.variant sum.tag ·.tag)

/-- The tags of a domain are those of its places. -/
theorem map_tag_places (domain : Domain) : domain.places.map Place.tag = domain.tags := by
  simp [places, tags, List.map_flatMap, Place.tag, Function.comp_def]

theorem tuple_mem_places {tag : String} :
    .tuple tag ∈ domain.places ↔ ∃ tuple ∈ domain.tuples, tuple.tag = tag := by
  simp [places]

theorem sum_mem_places {tag : String} :
    .sum tag ∈ domain.places ↔ ∃ sum ∈ domain.sums, sum.tag = tag := by
  simp [places, eq_comm]

theorem variant_mem_places {sumTag tag : String} :
    .variant sumTag tag ∈ domain.places ↔
      ∃ sum ∈ domain.sums, sum.tag = sumTag ∧ ∃ v ∈ sum.variants, v.tag = tag := by
  simp only [places, List.mem_append, List.mem_map, reduceCtorEq, and_false, exists_false,
    List.mem_flatMap, List.mem_cons, false_or, Place.variant.injEq]
  constructor
  · rintro ⟨sum, hsum, v, hv, rfl, rfl⟩
    exact ⟨sum, hsum, rfl, v, hv, rfl⟩
  · rintro ⟨sum, hsum, rfl, v, hv, rfl⟩
    exact ⟨sum, hsum, v, hv, rfl, rfl⟩

/-- A tag is defined exactly when some place has it. -/
theorem mem_tags_iff {tag : String} :
    tag ∈ domain.tags ↔ ∃ place ∈ domain.places, place.tag = tag := by
  rw [← map_tag_places, List.mem_map]

theorem tuple_tag_mem_tags {tuple : Tuple} (h : tuple ∈ domain.tuples) :
    tuple.tag ∈ domain.tags :=
  mem_tags_iff.mpr ⟨.tuple tuple.tag, tuple_mem_places.mpr ⟨tuple, h, rfl⟩, rfl⟩

theorem sum_tag_mem_tags {sum : Sum} (h : sum ∈ domain.sums) : sum.tag ∈ domain.tags :=
  mem_tags_iff.mpr ⟨.sum sum.tag, sum_mem_places.mpr ⟨sum, h, rfl⟩, rfl⟩

theorem variant_tag_mem_tags {sum : Sum} (h : sum ∈ domain.sums) {v : Tuple}
    (hv : v ∈ sum.variants) : v.tag ∈ domain.tags :=
  mem_tags_iff.mpr ⟨.variant sum.tag v.tag,
    variant_mem_places.mpr ⟨sum, h, rfl, v, hv, rfl⟩, rfl⟩

section Unique

variable (htags : domain.tags.Nodup)
include htags

/-- A tag has one place only. -/
theorem place_unique {p q : Place} (hp : p ∈ domain.places) (hq : q ∈ domain.places)
    (htag : p.tag = q.tag) : p = q := by
  rw [← map_tag_places] at htags
  exact List.inj_on_of_nodup_map htags hp hq htag

theorem nodup_tuple_tags : (domain.tuples.map (·.tag)).Nodup :=
  htags.of_append_left

theorem nodup_variant_tags {sum : Sum} (hsum : sum ∈ domain.sums) :
    (sum.tag :: sum.variants.map (·.tag)).Nodup :=
  (List.nodup_flatMap.mp htags.of_append_right).1 sum hsum

theorem nodup_sum_tags : (domain.sums.map (·.tag)).Nodup := by
  have hdisjoint := (List.nodup_flatMap.mp htags.of_append_right).2
  rw [List.Nodup, List.pairwise_map]
  refine hdisjoint.imp fun h heq => ?_
  exact h List.mem_cons_self (heq ▸ List.mem_cons_self)

theorem tuple_unique {t u : Tuple} (ht : t ∈ domain.tuples) (hu : u ∈ domain.tuples)
    (htag : t.tag = u.tag) : t = u :=
  List.inj_on_of_nodup_map (nodup_tuple_tags htags) ht hu htag

theorem sum_unique {s t : Sum} (hs : s ∈ domain.sums) (ht : t ∈ domain.sums)
    (htag : s.tag = t.tag) : s = t :=
  List.inj_on_of_nodup_map (nodup_sum_tags htags) hs ht htag

theorem variant_unique {sum : Sum} (hsum : sum ∈ domain.sums) {v w : Tuple}
    (hv : v ∈ sum.variants) (hw : w ∈ sum.variants) (htag : v.tag = w.tag) : v = w :=
  List.inj_on_of_nodup_map (nodup_variant_tags htags hsum).of_cons hv hw htag

end Unique

end Domain

/-! ### Looking a tag up -/

/-- Where keys do not repeat, a search from the end finds the only item with the key. -/
theorem reverse_find?_eq_some_iff {α : Type} {key : α → String} {items : List α}
    (hnodup : (items.map key).Nodup) {k : String} {item : α} :
    items.reverse.find? (key · == k) = some item ↔ item ∈ items ∧ key item = k := by
  constructor
  · intro h
    exact ⟨List.mem_reverse.mp (List.mem_of_find?_eq_some h), by simpa using List.find?_some h⟩
  · rintro ⟨hmem, hkey⟩
    cases hfind : items.reverse.find? (key · == k) with
    | none =>
      have hne := List.find?_eq_none.mp hfind item (List.mem_reverse.mpr hmem)
      simp [hkey] at hne
    | some other =>
      have hother := List.mem_reverse.mp (List.mem_of_find?_eq_some hfind)
      have hkeys : key other = k := by simpa using List.find?_some hfind
      rw [List.inj_on_of_nodup_map hnodup hother hmem (hkeys.trans hkey.symm)]

namespace Domain

variable {domain : Domain} (htags : domain.tags.Nodup)
include htags

theorem lastTuple?_eq_some_iff {tag : String} {tuple : Tuple} :
    domain.lastTuple? tag = some tuple ↔ tuple ∈ domain.tuples ∧ tuple.tag = tag :=
  reverse_find?_eq_some_iff (nodup_tuple_tags htags)

theorem lastSum?_eq_some_iff {tag : String} {sum : Sum} :
    domain.lastSum? tag = some sum ↔ sum ∈ domain.sums ∧ sum.tag = tag :=
  reverse_find?_eq_some_iff (nodup_sum_tags htags)

theorem lastVariant?_eq_some_iff {sum : Sum} (hsum : sum ∈ domain.sums) {tag : String}
    {v : Tuple} : sum.lastVariant? tag = some v ↔ v ∈ sum.variants ∧ v.tag = tag :=
  reverse_find?_eq_some_iff (nodup_variant_tags htags hsum).of_cons

end Domain

end DomainEvolution

import DomainEvolution.Proofs.DifferenceFaults
import DomainEvolution.Proofs.DifferenceHistory

/-!
# Refreshed tuples

To refresh a tuple is to derive its arity and its builders anew. What is derived is read off the
tag, the kind and the properties, never off what was derived before; so stale fields are repaired,
fields that are up to date stay, and a second pass changes nothing. Tuples of synthesized domains
and of their differences are up to date.
-/

namespace DomainEvolution

namespace Tuple

/-- The fields that a refresh derives: the arity, the builders, and whether a property is
variadic. -/
def derivedFields (tuple : Tuple) : Arity × List Builder × Bool :=
  (tuple.arity, tuple.builders, tuple.hasVariadic)

/-- What a refresh does to a tuple. It reads nothing but tag, kind and properties, derives what is
up to date, and changes nothing else; it is refused for the shape of the properties, or else for
their tags or names. -/
structure Repaired (tuple : Tuple) (evolution : Evolution) : Prop where
  determined : ∀ (other : Tuple) (evolution' : Evolution), other.tag = tuple.tag →
    other.isRecord = tuple.isRecord → other.properties = tuple.properties →
    (other.refresh evolution').map derivedFields = (tuple.refresh evolution).map derivedFields
  derived : ∀ refreshed, tuple.refresh evolution = .ok refreshed → refreshed.Derived
  kept : ∀ refreshed, tuple.refresh evolution = .ok refreshed →
    refreshed.underived = tuple.underived ∧ refreshed.evolution = evolution
  settled : ∀ refreshed, tuple.refresh evolution = .ok refreshed →
    ∀ evolution', refreshed.refresh evolution' = .ok (refreshed.withEvolution evolution')
  misshapen : ∀ reason, Shape.arity tuple.properties = .error reason →
    tuple.refresh evolution = .error reason
  refused : (∃ reason, tuple.refresh evolution = .error reason) ↔
    (∃ reason, Shape.arity tuple.properties = .error reason) ∨
      ¬ ((tuple.properties.map (·.tag)).Nodup ∧ (tuple.properties.map (·.name)).Nodup)

/-- A tuple or a variant of a synthesized domain, or one that the difference between two synthesized
domains holds. -/
inductive Generated : Tuple → Prop
  | synthesis {decl : Decl.Domain} {domain : Domain} {tuple : Tuple}
      (hdomain : Domain.synthesize decl = .ok domain) (h : tuple ∈ domain.allTuples) :
      Generated tuple
  | difference {sourceDecl destinationDecl : Decl.Domain} {source destination : Domain}
      {transform : Transform} {tuple : Tuple} (hsource : Domain.synthesize sourceDecl = .ok source)
      (hdestination : Domain.synthesize destinationDecl = .ok destination)
      (hok : Transform.between source destination = .ok transform)
      (h : tuple ∈ transform.difference.allTuples) : Generated tuple

/-- Two tuples of one tag and one kind have the same builders for the same properties. -/
theorem builders_congr {tuple other : Tuple} (htag : other.tag = tuple.tag)
    (hrecord : other.isRecord = tuple.isRecord)
    (hproperties : other.properties = tuple.properties) :
    Overload.builders other = Overload.builders tuple := by
  unfold Overload.builders
  rw [htag, hrecord, hproperties]

section Refresh

variable {tuple : Tuple} {evolution : Evolution}

/-- A refresh derives the arity of the properties and then the builders of the tuple. -/
theorem map_derivedFields_refresh :
    (tuple.refresh evolution).map derivedFields = (do
      let arity ← Shape.arity tuple.properties
      let builders ← Overload.builders tuple
      return (arity, builders, tuple.properties.any (·.isVariadic))) := by
  unfold refresh
  cases Shape.arity tuple.properties with
  | error reason => rfl
  | ok arity => cases Overload.builders tuple <;> rfl

/-- A refreshed tuple is up to date. -/
theorem derived_of_refresh {refreshed : Tuple} (hok : tuple.refresh evolution = .ok refreshed) :
    refreshed.Derived ∧ refreshed.evolution = evolution := by
  simp only [refresh, bind_eq_ok_iff] at hok
  obtain ⟨arity, harity, builders, hbuilders, h⟩ := hok
  cases h
  have hsame : Overload.builders
      { tuple with
        arity := arity
        builders := builders
        evolution := evolution
        hasVariadic := tuple.properties.any (·.isVariadic) } = .ok builders := by
    rw [← hbuilders]
    exact builders_congr rfl rfl rfl
  exact ⟨⟨harity, hsame, rfl⟩, rfl⟩

/-- A refresh is refused for the shape, or else for the tags or names of the properties. -/
theorem exists_refresh_eq_error_iff :
    (∃ reason, tuple.refresh evolution = .error reason) ↔
      (∃ reason, Shape.arity tuple.properties = .error reason) ∨
        ¬ ((tuple.properties.map (·.tag)).Nodup ∧ (tuple.properties.map (·.name)).Nodup) := by
  rw [exists_eq_error_iff, exists_eq_error_iff, exists_refresh_eq_ok_iff, ← not_and_or]
  refine not_congr ⟨fun h => ⟨h.arity, h.tags, h.names⟩, ?_⟩
  rintro ⟨harity, htags, hnames⟩
  exact ⟨harity, htags, hnames⟩

end Refresh

/-- The tuples that are generated are up to date. -/
theorem Generated.derived {tuple : Tuple} (h : tuple.Generated) : tuple.Derived := by
  cases h with
  | synthesis hdomain h => exact (Synthesis.coherent_of_synthesize hdomain).derived tuple h
  | difference hsource hdestination hok h =>
    have hwellFormed := Difference.wellFormed_of_between
      (Synthesis.wellFormed_of_synthesize hsource)
      (Synthesis.wellFormed_of_synthesize hdestination) hok
    exact (hwellFormed.tuples tuple h).derived

/-- **A refresh repairs the derived fields and nothing else**, and tuples that are generated have
nothing to repair. -/
theorem refresh_repaired_and_generated_uptodate (tuple : Tuple) (evolution : Evolution) :
    tuple.Repaired evolution ∧
      (tuple.Generated → tuple.refresh evolution = .ok (tuple.withEvolution evolution)) := by
  refine ⟨⟨?_, ?_, ?_, ?_, ?_, exists_refresh_eq_error_iff⟩, fun h => h.derived.refresh evolution⟩
  · intro other evolution' htag hrecord hproperties
    rw [map_derivedFields_refresh, map_derivedFields_refresh, hproperties,
      builders_congr htag hrecord hproperties]
  · exact fun refreshed hok => (derived_of_refresh hok).1
  · intro refreshed hok
    exact ⟨underived_of_refresh hok, (derived_of_refresh hok).2⟩
  · intro refreshed hok evolution'
    exact (derived_of_refresh hok).1.refresh evolution'
  · intro reason hshape
    exact refresh_eq_error_iff.mpr (.shape hshape)

/-- A variant that a difference holds, because it has become optional. -/
theorem refresh_repaired_and_generated_uptodate_moves :
    ∃ tuple : Tuple, tuple.tag = "item" ∧ tuple.arity = .between 0 1 ∧ tuple.Generated ∧
      tuple.refresh .added = .ok (tuple.withEvolution .added) := by
  obtain ⟨source, destination, transform, tuple, hsource, hdestination, hok, htag, harity, hmem⟩ :
      ∃ (source destination : Domain) (transform : Transform) (tuple : Tuple),
        Domain.synthesize Difference.beforeMoves = .ok source ∧
        Domain.synthesize Difference.afterMoves = .ok destination ∧
        Transform.between source destination = .ok transform ∧
        tuple.tag = "item" ∧ tuple.arity = .between 0 1 ∧
        transform.difference.allTuples.getLast? = some tuple :=
    ⟨_, _, _, _, rfl, rfl, rfl, rfl, rfl, rfl⟩
  have hgenerated : tuple.Generated :=
    .difference hsource hdestination hok (List.mem_of_getLast? hmem)
  exact ⟨tuple, htag, harity, hgenerated,
    (refresh_repaired_and_generated_uptodate tuple .added).2 hgenerated⟩

end Tuple

end DomainEvolution

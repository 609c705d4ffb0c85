import DomainEvolution.Difference
import DomainEvolution.Proofs.SynthesisStages

/-!
# When a difference is refused

Between domains that nobody checked, tags may repeat and properties may stand in any order. Even
there a comparison looks at the members that it selects and at no others: it is refused for the
first of them that has no constructors, and only if all of them have, for the first that refers to a
tag that is gone. In every other case it succeeds.
-/

namespace DomainEvolution

namespace Tuple

/-- A tuple that has an arity and whose properties differ in tag and in name. -/
structure Constructible (tuple : Tuple) : Prop where
  arity : ∃ arity, Shape.arity tuple.properties = .ok arity
  tags : (tuple.properties.map (·.tag)).Nodup
  names : (tuple.properties.map (·.name)).Nodup

/-- Why a tuple is not constructible: its shape, or else a clash of its properties. -/
inductive HasFault (tuple : Tuple) (reason : ShapeError) : Prop
  | shape (h : Shape.arity tuple.properties = .error reason)
  | names (harity : ∃ arity, Shape.arity tuple.properties = .ok arity)
      (h : Overload.checkNames tuple.properties = .error reason)

/-- The tuple without the fields that follow from its properties, and without an evolution. -/
def underived (tuple : Tuple) : Tuple :=
  { tuple with arity := .exact 0, builders := [], evolution := .inherited, hasVariadic := false }

section Refresh

variable {tuple : Tuple} {evolution : Evolution}

/-- The derived fields of a tuple can be computed anew exactly if it is constructible. -/
theorem exists_refresh_eq_ok_iff :
    (∃ refreshed, tuple.refresh evolution = .ok refreshed) ↔ tuple.Constructible := by
  simp only [refresh, bind_eq_ok_iff, Overload.builders_eq_ok_iff]
  constructor
  · rintro ⟨_, arity, harity, _, ⟨hdistinct, -⟩, -⟩
    exact ⟨⟨arity, harity⟩, hdistinct.tags, hdistinct.names⟩
  · rintro ⟨⟨arity, harity⟩, htags, hnames⟩
    exact ⟨_, arity, harity, _, ⟨⟨htags, hnames⟩, rfl⟩, rfl⟩

/-- Otherwise the reason is the fault of the tuple. -/
theorem refresh_eq_error_iff {reason : ShapeError} :
    tuple.refresh evolution = .error reason ↔ tuple.HasFault reason := by
  simp only [refresh, bind_eq_error_iff, Overload.builders_eq_error_iff]
  constructor
  · rintro (h | ⟨arity, harity, h | ⟨_, _, h⟩⟩)
    · exact .shape h
    · exact .names ⟨arity, harity⟩ h
    · cases h
  · rintro (h | ⟨⟨arity, harity⟩, h⟩)
    · exact Or.inl h
    · exact Or.inr ⟨arity, harity, Or.inl h⟩

/-- A tuple has a fault exactly if it is not constructible. -/
theorem exists_hasFault_iff : (∃ reason, tuple.HasFault reason) ↔ ¬ tuple.Constructible := by
  have herror (reason : ShapeError) :
      tuple.refresh .inherited = .error reason ↔ tuple.HasFault reason := refresh_eq_error_iff
  simp only [← herror]
  rw [exists_eq_error_iff, exists_refresh_eq_ok_iff]

/-- Computing the derived fields anew changes them and the evolution alone. -/
theorem underived_of_refresh {refreshed : Tuple} (hok : tuple.refresh evolution = .ok refreshed) :
    refreshed.underived = tuple.underived := by
  simp only [refresh, bind_eq_ok_iff] at hok
  obtain ⟨_, _, _, _, h⟩ := hok
  cases h
  rfl

end Refresh

end Tuple

namespace Domain

/-- Whether the last tuple of the domain with the tag of a tuple has its structure. -/
def keepsTuple (domain : Domain) (tuple : Tuple) : Bool :=
  (domain.lastTuple? tuple.tag).any (·.sameStructure tuple)

/-- Whether the last sum of the domain with the tag of a sum has its set of variant tags, and the
last of its variants with the tag of a variant has the structure of that variant. -/
def keepsVariant (domain : Domain) (sum : Sum) (variant : Tuple) : Bool :=
  (domain.lastSum? sum.tag).any fun old => old.sameVariants sum && old.keeps variant

end Domain

namespace Difference

/-- The members of the destination that the source does not keep, under the names by which errors
mention them and in the order in which they are emitted. -/
def selected (source destination : Domain) : List (String × Tuple) :=
  (destination.tuples.filter (!source.keepsTuple ·)).map (fun tuple => (tuple.tag, tuple)) ++
    destination.sums.flatMap fun sum =>
      (sum.variants.filter (!source.keepsVariant sum ·)).map fun v =>
        (Synthesis.variantMember sum.tag v.tag, v)

/-- A tag that the source has at some place and the destination at none. -/
def Gone (source destination : Domain) (tag : String) : Prop :=
  tag ∈ source.tags ∧ tag ∉ destination.tags

/-- Why there is no difference between two domains. -/
inductive Refused (source destination : Domain) : CompileError → Prop
  | invalidShape {before after : List (String × Tuple)} {member : String} {tuple : Tuple}
      {reason : ShapeError}
      (hsplit : selected source destination = before ++ (member, tuple) :: after)
      (hbefore : ∀ m ∈ before, m.2.Constructible) (hfault : tuple.HasFault reason) :
      Refused source destination (.invalidShape destination.tag member reason)
  | removedTagReferenced {before after : List (String × Tuple)} {member : String} {tuple : Tuple}
      {front back : List Property} {property : Property}
      (hshapes : ∀ m ∈ selected source destination, m.2.Constructible)
      (hsplit : selected source destination = before ++ (member, tuple) :: after)
      (hbefore : ∀ m ∈ before, ∀ p ∈ m.2.properties, ¬ Gone source destination p.rawType)
      (hproperties : tuple.properties = front ++ property :: back)
      (hfront : ∀ p ∈ front, ¬ Gone source destination p.rawType)
      (hgone : Gone source destination property.rawType) :
      Refused source destination (.removedTagReferenced source.tag destination.tag member
        property.tag property.rawType)

/-! ### What is emitted is what is selected -/

/-- The tuples and variants that a difference holds with their evolutions, under the names by which
errors mention them. -/
def emissions (source destination : Domain) : List (String × Emission) :=
  (tupleEmissions source destination).map (fun emission => (emission.1.tag, emission)) ++
    (sumEmissions source destination).flatMap fun emission =>
      emission.2.2.map fun v => (Synthesis.variantMember emission.1.tag v.1.tag, v)

section Selection

variable {source : Domain}

/-- A tuple is emitted exactly if the source does not keep it. -/
theorem isSome_tupleEvolution? (tuple : Tuple) :
    (tupleEvolution? source tuple).isSome = !source.keepsTuple tuple := by
  unfold tupleEvolution? Domain.keepsTuple
  cases source.lastTuple? tuple.tag with
  | none => rfl
  | some old =>
    rw [Option.any_some]
    cases hsame : old.sameStructure tuple <;> simp [hsame]

/-- Of a sum, the variants are emitted that the source does not keep. -/
theorem map_fst_sumEmission? (sum : Sum) :
    ((sumEmission? source sum).elim [] (·.2)).map (·.1) =
      sum.variants.filter (!source.keepsVariant sum ·) := by
  unfold sumEmission? Domain.keepsVariant
  cases source.lastSum? sum.tag with
  | none => simp [Function.comp_def]
  | some old =>
    simp only [Option.any_some]
    by_cases hsame : old.sameVariants sum = true
    · simp only [hsame, if_true, Bool.true_and]
      cases hfilter : sum.variants.filter (!old.keeps ·) with
      | nil => rfl
      | cons first rest => simp [Function.comp_def]
    · simp [hsame, Function.comp_def]

theorem map_tupleEmissions (destination : Domain) :
    (tupleEmissions source destination).map (fun emission => (emission.1.tag, emission.1)) =
      (destination.tuples.filter (!source.keepsTuple ·)).map fun tuple => (tuple.tag, tuple) := by
  unfold tupleEmissions
  induction destination.tuples with
  | nil => rfl
  | cons tuple tuples ih =>
    have hsome : (tupleEvolution? source tuple).isSome = !source.keepsTuple tuple :=
      isSome_tupleEvolution? tuple
    cases hevolution : tupleEvolution? source tuple with
    | none =>
      rw [hevolution, Option.isSome_none] at hsome
      rw [List.filterMap_cons_none (by simp [hevolution]), ih,
        List.filter_cons_of_neg (by simp [← hsome])]
    | some evolution =>
      rw [hevolution, Option.isSome_some] at hsome
      rw [List.filterMap_cons_some (by simp [hevolution]; rfl), List.map_cons, ih, List.filter_cons,
        if_pos hsome.symm]
      rfl

theorem flatMap_sumEmissions (destination : Domain) :
    ((sumEmissions source destination).flatMap fun emission => emission.2.2.map fun v =>
        (Synthesis.variantMember emission.1.tag v.1.tag, v.1)) =
      destination.sums.flatMap fun sum =>
        (sum.variants.filter (!source.keepsVariant sum ·)).map fun v =>
          (Synthesis.variantMember sum.tag v.tag, v) := by
  unfold sumEmissions
  induction destination.sums with
  | nil => rfl
  | cons sum sums ih =>
    rw [List.flatMap_cons, ← ih, ← map_fst_sumEmission?]
    cases hemission : sumEmission? source sum with
    | none =>
      rw [List.filterMap_cons_none (by simp [hemission])]
      rfl
    | some emission =>
      rw [List.filterMap_cons_some (by simp [hemission]; rfl), List.flatMap_cons]
      simp [Function.comp_def]

/-- The emitted members are the selected ones. -/
theorem map_emissions (destination : Domain) :
    (emissions source destination).map (fun m => (m.1, m.2.1)) = selected source destination := by
  rw [emissions, selected, List.map_append, ← map_tupleEmissions, ← flatMap_sumEmissions]
  simp [List.map_flatMap, Function.comp_def]

end Selection

/-! ### Members that are not constructible -/

section Emission

variable {domain member : String} {emission : Emission}

/-- A member is emitted exactly if it is constructible. -/
theorem exists_emitTuple_eq_ok_iff :
    (∃ tuple, emitTuple domain member emission = .ok tuple) ↔ emission.1.Constructible := by
  simp only [emitTuple, Synthesis.atMember_eq_ok_iff, Tuple.exists_refresh_eq_ok_iff]

/-- A member that is not constructible is refused for its fault. -/
theorem emitTuple_eq_error_iff {e : CompileError} :
    emitTuple domain member emission = .error e ↔
      ∃ reason, emission.1.HasFault reason ∧ e = .invalidShape domain member reason := by
  simp only [emitTuple, Synthesis.atMember_eq_error_iff, Tuple.refresh_eq_error_iff]

/-- An emitted member keeps its tag and everything else that is not derived. -/
theorem underived_of_emitTuple {tuple : Tuple}
    (hok : emitTuple domain member emission = .ok tuple) :
    tuple.tag = emission.1.tag ∧ tuple.underived = emission.1.underived := by
  have hsame := Tuple.underived_of_refresh (Synthesis.atMember_eq_ok_iff.mp hok)
  have htag : tuple.underived.tag = emission.1.underived.tag := congrArg Tuple.tag hsame
  exact ⟨htag, hsame⟩

end Emission

/-- The variants of an emitted sum, with their derived fields computed anew. -/
def emitVariants (domain : String) (emission : Sum × Evolution × List Emission) :
    Except CompileError (List Tuple) :=
  emission.2.2.mapM fun v => emitTuple domain (Synthesis.variantMember emission.1.tag v.1.tag) v

section SumEmission

variable {domain : String} {emission : Sum × Evolution × List Emission}

theorem emitSum_eq_ok_iff {sum : Sum} :
    emitSum domain emission = .ok sum ↔ ∃ variants, emitVariants domain emission = .ok variants ∧
      sum = { emission.1 with variants := variants, evolution := emission.2.1 } := by
  change (emitVariants domain emission >>= fun variants => .ok { emission.1 with
    variants := variants, evolution := emission.2.1 }) = .ok sum ↔ _
  rw [bind_eq_ok_iff]
  simp only [Except.ok.injEq, eq_comm]

theorem emitSum_eq_error_iff {e : CompileError} :
    emitSum domain emission = .error e ↔ emitVariants domain emission = .error e := by
  change (emitVariants domain emission >>= fun variants => .ok { emission.1 with
    variants := variants, evolution := emission.2.1 }) = .error e ↔ _
  simp [bind_eq_error_iff]

end SumEmission

/-- The difference domain, before its references are checked. -/
def assemble (source destination : Domain) : Except CompileError Domain := do
  let tuples ← (tupleEmissions source destination).mapM fun emission =>
    emitTuple destination.tag emission.1.tag emission
  let sums ← (sumEmissions source destination).mapM (emitSum destination.tag)
  return {
    name := source.name ++ "To" ++ destination.name ++ "Difference"
    tag := source.tag ++ "_to_" ++ destination.tag
    tuples := tuples
    sums := sums }

section Assembly

variable {source destination : Domain}

/-- Emitting the sums of a difference fails as emitting all of their variants in a row does. -/
theorem mapM_emitSum_eq_error_iff {e : CompileError} :
    (sumEmissions source destination).mapM (emitSum destination.tag) = .error e ↔
      ((sumEmissions source destination).flatMap fun emission => emission.2.2.map fun v =>
        (Synthesis.variantMember emission.1.tag v.1.tag, v)).mapM
          (fun m => emitTuple destination.tag m.1 m.2) = .error e := by
  have hexists (emission : Sum × Evolution × List Emission) :
      (∃ sum, emitSum destination.tag emission = .ok sum) ↔
        ∃ variants, emitVariants destination.tag emission = .ok variants := by
    simp only [emitSum_eq_ok_iff]
    constructor
    · rintro ⟨_, variants, hvariants, -⟩
      exact ⟨variants, hvariants⟩
    · rintro ⟨variants, hvariants⟩
      exact ⟨_, variants, hvariants, rfl⟩
  have hflat {x : Except CompileError (List (List Tuple))} :
      List.flatten <$> x = .error e ↔ x = .error e := by
    cases x <;> simp [Functor.map, Except.map]
  rw [mapM_flatMap, hflat]
  simp only [List.mapM_map]
  change _ ↔ (sumEmissions source destination).mapM (emitVariants destination.tag) = .error e
  simp only [mapM_eq_error_iff, emitSum_eq_error_iff, hexists]

/-- A difference cannot be assembled exactly if some emitted member cannot be, and then for the
first one. -/
theorem assemble_eq_error_iff {e : CompileError} :
    assemble source destination = .error e ↔
      (emissions source destination).mapM (fun m => emitTuple destination.tag m.1 m.2) =
        .error e := by
  rw [emissions, List.mapM_append, List.mapM_map]
  simp only [assemble, bind_eq_error_iff, mapM_emitSum_eq_error_iff]
  simp [pure, Except.pure, Function.comp_def]

/-- An assembled difference holds the selected members, in their order and with their derived fields
computed anew. -/
theorem map_underived_members_of_assemble {difference : Domain}
    (hok : assemble source destination = .ok difference) :
    (members difference).map (fun m => (m.1, m.2.underived)) =
      (selected source destination).map fun m => (m.1, m.2.underived) := by
  simp only [assemble, bind_eq_ok_iff] at hok
  obtain ⟨tuples, htuples, sums, hsums, h⟩ := hok
  cases h
  have htop : tuples.map (fun tuple => (tuple.tag, tuple.underived)) =
      (tupleEmissions source destination).map fun emission =>
        (emission.1.tag, emission.1.underived) := by
    refine map_eq_map_of_mapM_eq_ok (fun emission _ tuple htuple => ?_) htuples
    obtain ⟨htag, hsame⟩ := underived_of_emitTuple htuple
    rw [htag, hsame]
  have hvariants : sums.map (fun sum => sum.variants.map fun v =>
        (Synthesis.variantMember sum.tag v.tag, v.underived)) =
      (sumEmissions source destination).map fun emission => emission.2.2.map fun v =>
        (Synthesis.variantMember emission.1.tag v.1.tag, v.1.underived) := by
    refine map_eq_map_of_mapM_eq_ok (fun emission _ sum hsum => ?_) hsums
    obtain ⟨variants, hvariants, rfl⟩ := emitSum_eq_ok_iff.mp hsum
    refine map_eq_map_of_mapM_eq_ok (fun v _ tuple htuple => ?_) hvariants
    obtain ⟨htag, hsame⟩ := underived_of_emitTuple htuple
    rw [htag, hsame]
  rw [← map_emissions, List.map_map, members, emissions, List.map_append, List.map_append,
    List.map_map, List.map_map, List.map_flatMap, List.map_flatMap]
  simp only [List.map_map, Function.comp_def]
  rw [htop, List.flatMap_def, hvariants, ← List.flatMap_def]

end Assembly

/-! ### References to tags that are gone -/

/-- The first property of the first member of a list whose type name is one of the removed tags. -/
def reference? (removed : List String) (members : List (String × Tuple)) :
    Option (String × Property) :=
  members.findSome? fun (member, tuple) =>
    (tuple.properties.find? (removed.contains ·.rawType)).map fun property => (member, property)

/-- A reference does not depend on derived fields. -/
theorem reference?_map_underived (removed : List String) (members : List (String × Tuple)) :
    reference? removed (members.map fun m => (m.1, m.2.underived)) =
      reference? removed members := by
  rw [reference?, List.findSome?_map]
  rfl

section References

variable {source destination : Domain}

theorem contains_removedTags {tag : String} :
    (removedTags source destination).contains tag = true ↔ Gone source destination tag := by
  simp [removedTags, Gone]

/-- There is no first property with a removed type exactly if none refers to a tag that is gone. -/
theorem find?_removed_eq_none_iff {properties : List Property} :
    properties.find? ((removedTags source destination).contains ·.rawType) = none ↔
      ∀ p ∈ properties, ¬ Gone source destination p.rawType := by
  simp only [List.find?_eq_none, contains_removedTags]

/-- The reference that is found is the first one. -/
theorem reference?_eq_some_iff {members : List (String × Tuple)} {member : String}
    {property : Property} :
    reference? (removedTags source destination) members = some (member, property) ↔
      ∃ before tuple after front back, members = before ++ (member, tuple) :: after ∧
        (∀ m ∈ before, ∀ p ∈ m.2.properties, ¬ Gone source destination p.rawType) ∧
        tuple.properties = front ++ property :: back ∧
        (∀ p ∈ front, ¬ Gone source destination p.rawType) ∧
        Gone source destination property.rawType := by
  simp only [reference?, List.findSome?_eq_some_iff, Option.map_eq_some_iff, Option.map_eq_none_iff,
    find?_removed_eq_none_iff, List.find?_eq_some_iff_append, Bool.not_eq_true',
    ← Bool.not_eq_true, contains_removedTags]
  constructor
  · rintro ⟨before, ⟨_, tuple⟩, after, hsplit, ⟨_, ⟨hgone, front, back, hproperties, hfront⟩, heq⟩,
      hbefore⟩
    cases heq
    exact ⟨before, tuple, after, front, back, hsplit, hbefore, hproperties, hfront, hgone⟩
  · rintro ⟨before, tuple, after, front, back, hsplit, hbefore, hproperties, hfront, hgone⟩
    exact ⟨before, (member, tuple), after, hsplit,
      ⟨property, ⟨hgone, front, back, hproperties, hfront⟩, rfl⟩, hbefore⟩

theorem reference?_eq_none_iff {members : List (String × Tuple)} :
    reference? (removedTags source destination) members = none ↔
      ∀ m ∈ members, ∀ p ∈ m.2.properties, ¬ Gone source destination p.rawType := by
  simp only [reference?, List.findSome?_eq_none_iff, Option.map_eq_none_iff,
    find?_removed_eq_none_iff]

end References

/-! ### The outcome of a comparison -/

section Outcome

variable {source destination : Domain}

/-- A comparison assembles the difference and then checks its references. -/
theorem between_eq_bind : Transform.between source destination =
    assemble source destination >>= fun difference =>
      match reference? (removedTags source destination) (members difference) with
      | some (member, property) =>
        .error (.removedTagReferenced source.tag destination.tag member property.tag
          property.rawType)
      | none => .ok {
          difference := difference
          sourceName := source.name
          destinationName := destination.name
          removedTags := removedTags source destination } := by
  simp only [assemble, bind_assoc]
  rfl

/-- A difference is assembled exactly if all selected members are constructible. -/
theorem exists_assemble_eq_ok_iff :
    (∃ difference, assemble source destination = .ok difference) ↔
      ∀ m ∈ selected source destination, m.2.Constructible := by
  rw [exists_eq_ok_iff_of_error_iff fun _ => assemble_eq_error_iff, ← map_emissions,
    List.forall_mem_map]
  constructor
  · rintro ⟨tuples, htuples⟩ m hm
    obtain ⟨tuple, -, htuple⟩ := exists_mem_of_mapM_eq_ok htuples hm
    exact exists_emitTuple_eq_ok_iff.mp ⟨tuple, htuple⟩
  · intro h
    exact exists_mapM_eq_ok fun m hm => exists_emitTuple_eq_ok_iff.mpr (h m hm)

/-- Otherwise the first selected member that is not constructible is refused. -/
theorem assemble_eq_error_iff_selected {e : CompileError} :
    assemble source destination = .error e ↔ ∃ before member tuple after reason,
      selected source destination = before ++ (member, tuple) :: after ∧
        (∀ m ∈ before, m.2.Constructible) ∧ tuple.HasFault reason ∧
        e = .invalidShape destination.tag member reason := by
  simp only [assemble_eq_error_iff, mapM_eq_error_iff, exists_emitTuple_eq_ok_iff,
    emitTuple_eq_error_iff, ← map_emissions]
  constructor
  · rintro ⟨before, item, after, hsplit, hbefore, reason, hfault, rfl⟩
    refine ⟨before.map fun m => (m.1, m.2.1), item.1, item.2.1,
      after.map fun m => (m.1, m.2.1), reason, ?_, List.forall_mem_map.mpr hbefore, hfault, rfl⟩
    rw [hsplit, List.map_append, List.map_cons]
  · rintro ⟨before, member, tuple, after, reason, hsplit, hbefore, hfault, rfl⟩
    obtain ⟨front, rest, hemissions, rfl, hrest⟩ := List.map_eq_append_iff.mp hsplit
    obtain ⟨item, back, rfl, hitem, -⟩ := List.map_eq_cons_iff.mp hrest
    cases hitem
    exact ⟨front, item, back, hemissions, fun m hm => hbefore _ (List.mem_map_of_mem hm), reason,
      hfault, rfl⟩

/-- An assembled difference refers to the tags that the selected members refer to. -/
theorem reference?_of_assemble {difference : Domain}
    (hok : assemble source destination = .ok difference) :
    reference? (removedTags source destination) (members difference) =
      reference? (removedTags source destination) (selected source destination) := by
  rw [← reference?_map_underived, map_underived_members_of_assemble hok, reference?_map_underived]

/-- A comparison is refused for its members alone. -/
theorem between_eq_error_iff {e : CompileError} :
    Transform.between source destination = .error e ↔ Refused source destination e := by
  rw [between_eq_bind, bind_eq_error_iff, assemble_eq_error_iff_selected]
  constructor
  · rintro (⟨before, member, tuple, after, reason, hsplit, hbefore, hfault, rfl⟩ |
      ⟨difference, hok, herror⟩)
    · exact .invalidShape hsplit hbefore hfault
    · rw [reference?_of_assemble hok] at herror
      split at herror
      · next member property hfound =>
        cases herror
        obtain ⟨before, tuple, after, front, back, hsplit, hbefore, hproperties, hfront, hgone⟩ :=
          reference?_eq_some_iff.mp hfound
        exact .removedTagReferenced (exists_assemble_eq_ok_iff.mp ⟨difference, hok⟩) hsplit hbefore
          hproperties hfront hgone
      · cases herror
  · intro hrefused
    cases hrefused with
    | invalidShape hsplit hbefore hfault =>
      exact Or.inl ⟨_, _, _, _, _, hsplit, hbefore, hfault, rfl⟩
    | removedTagReferenced hshapes hsplit hbefore hproperties hfront hgone =>
      obtain ⟨difference, hok⟩ := exists_assemble_eq_ok_iff.mpr hshapes
      refine Or.inr ⟨difference, hok, ?_⟩
      rw [reference?_of_assemble hok, reference?_eq_some_iff.mpr
        ⟨_, _, _, _, _, hsplit, hbefore, hproperties, hfront, hgone⟩]

/-- A comparison that succeeds assembles its difference from members that refer to nothing gone. -/
theorem between_eq_ok_iff {transform : Transform} :
    Transform.between source destination = .ok transform ↔
      assemble source destination = .ok transform.difference ∧
        (∀ m ∈ selected source destination, ∀ p ∈ m.2.properties,
          ¬ Gone source destination p.rawType) ∧
        transform.sourceName = source.name ∧ transform.destinationName = destination.name ∧
        transform.removedTags = removedTags source destination := by
  rw [between_eq_bind, bind_eq_ok_iff, ← reference?_eq_none_iff]
  constructor
  · rintro ⟨difference, hok, hrest⟩
    rw [reference?_of_assemble hok] at hrest
    split at hrest
    · cases hrest
    · next hnone =>
      cases hrest
      exact ⟨hok, hnone, rfl, rfl, rfl⟩
  · rintro ⟨hok, hnone, hsource, hdestination, hremoved⟩
    refine ⟨transform.difference, hok, ?_⟩
    rw [reference?_of_assemble hok, hnone, ← hsource, ← hdestination, ← hremoved]

/-- A comparison is refused for a shape exactly if a selected member is not constructible. -/
theorem exists_between_eq_invalidShape_iff :
    (∃ member reason,
      Transform.between source destination = .error (.invalidShape destination.tag member reason)) ↔
      ∃ m ∈ selected source destination, ¬ m.2.Constructible := by
  simp only [between_eq_error_iff]
  constructor
  · rintro ⟨member, reason, hrefused⟩
    cases hrefused with
    | @invalidShape _ _ _ tuple _ hsplit _ hfault =>
      refine ⟨(member, tuple), ?_, Tuple.exists_hasFault_iff.mp ⟨reason, hfault⟩⟩
      rw [hsplit]
      exact List.mem_append_right _ List.mem_cons_self
  · rintro ⟨m, hm, hfaulty⟩
    cases hassemble : assemble source destination with
    | ok difference => exact absurd (exists_assemble_eq_ok_iff.mp ⟨_, hassemble⟩ m hm) hfaulty
    | error e =>
      obtain ⟨before, member, tuple, after, reason, hsplit, hbefore, hfault, _⟩ :=
        assemble_eq_error_iff_selected.mp hassemble
      exact ⟨member, reason, .invalidShape hsplit hbefore hfault⟩

/-- A comparison succeeds exactly if all selected members are constructible and refer to nothing
that is gone. -/
theorem exists_between_eq_ok_iff :
    (∃ transform, Transform.between source destination = .ok transform) ↔
      (∀ m ∈ selected source destination, m.2.Constructible) ∧
        ∀ m ∈ selected source destination, ∀ p ∈ m.2.properties,
          ¬ Gone source destination p.rawType := by
  simp only [between_eq_ok_iff]
  rw [← exists_assemble_eq_ok_iff]
  constructor
  · rintro ⟨transform, hassemble, hreferences, -⟩
    exact ⟨⟨_, hassemble⟩, hreferences⟩
  · rintro ⟨⟨difference, hassemble⟩, hreferences⟩
    exact ⟨⟨difference, source.name, destination.name, removedTags source destination⟩,
      hassemble, hreferences, rfl, rfl, rfl⟩

/-- **When there is no difference between two domains**, whatever they are like. It is refused for
the shape of a member exactly if a selected one is not constructible, and otherwise for a reference
exactly if a selected one refers to a tag that is gone; the error names the first such member. In
every other case there is a difference, and it holds the selected members. -/
theorem between_refused_or_holds_selected (source destination : Domain) :
    (∀ e, Transform.between source destination = .error e ↔ Refused source destination e) ∧
    ((∃ member reason, Transform.between source destination =
        .error (.invalidShape destination.tag member reason)) ↔
      ∃ m ∈ selected source destination, ¬ m.2.Constructible) ∧
    ((∃ transform, Transform.between source destination = .ok transform ∧
        (members transform.difference).map (fun m => (m.1, m.2.underived)) =
          (selected source destination).map fun m => (m.1, m.2.underived)) ↔
      (∀ m ∈ selected source destination, m.2.Constructible) ∧
        ∀ m ∈ selected source destination, ∀ p ∈ m.2.properties,
          ¬ Gone source destination p.rawType) := by
  refine ⟨fun e => between_eq_error_iff, exists_between_eq_invalidShape_iff, ?_⟩
  rw [← exists_between_eq_ok_iff]
  refine exists_congr fun transform => and_iff_left_of_imp fun hok => ?_
  exact map_underived_members_of_assemble (between_eq_ok_iff.mp hok).1

end Outcome

end Difference

end DomainEvolution

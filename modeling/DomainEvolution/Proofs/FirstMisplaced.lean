import DomainEvolution.Proofs.LegalShape
import Mathlib.Data.List.Chain
import Mathlib.Order.Bounds.Basic

/-!
# The first misplaced property

Whether a shape is legal can be seen from each property and the one right behind it. Every beginning
of a legal shape is therefore legal, so an illegal shape has a first property that cannot stand
where it stands, and its neighbour in front tells which of the three faults it makes.
-/

namespace DomainEvolution

/-- The ends of the range do not cross. -/
def Arity.Uncrossed (arity : Arity) : Prop := ∀ max, arity.max = .bounded max → arity.min ≤ max

namespace Shape

/-- Whether a property may stand right behind another: none behind a variadic one, and no required
one behind an optional one. -/
def MayPrecede : Cardinality → Cardinality → Prop
  | .required, _ => True
  | .optional, next => next ≠ .required
  | .variadic, _ => False

/-- The arity that the properties add up to, whatever their order. -/
def tally (properties : List Property) : Arity where
  min := properties.countP (·.isRequired)
  max :=
    if properties.any (·.isVariadic) then .unbounded
    else .bounded
      (properties.countP (·.isRequired) + properties.countP fun p => p.isNullable && !p.isVariadic)

/-- The least position up to which the properties do not form a legal shape. -/
def IsFirstMisplaced (properties : List Property) (position : Nat) : Prop :=
  IsLeast {i | i < properties.length ∧ ¬ Legal ((properties.take (i + 1)).map (·.cardinality))}
    position

/-- What the property at a position does wrong, told by the property in front of it. -/
inductive FaultAt (properties : List Property) (position : Nat) : ShapeError → Prop
  | multipleVariadic {before : Nat} {first second : Property} (hposition : position = before + 1)
      (hfirst : properties[before]? = some first) (hsecond : properties[position]? = some second)
      (hfirstVariadic : first.isVariadic = true) (hsecondVariadic : second.isVariadic = true) :
      FaultAt properties position (.multipleVariadic first.tag second.tag)
  | variadicNotLast {before : Nat} {first next : Property} (hposition : position = before + 1)
      (hfirst : properties[before]? = some first) (hnext : properties[position]? = some next)
      (hfirstVariadic : first.isVariadic = true) (hnextVariadic : next.isVariadic = false) :
      FaultAt properties position (.variadicNotLast first.tag)
  | requiredAfterOptional {late first : Property} (hlate : properties[position]? = some late)
      (hbefore : ∀ before property, position = before + 1 →
        properties[before]? = some property → property.isVariadic = false)
      (hfirst : properties.find? (fun p => p.isNullable && !p.isVariadic) = some first) :
      FaultAt properties position (.requiredAfterOptional late.tag first.tag)

/-! ### Legal shapes by neighbours -/

section Letters

variable {rest : List Cardinality}

/-- A required property may stand in front of any legal shape. -/
theorem legal_required_cons_iff : Legal (.required :: rest) ↔ Legal rest := by
  constructor
  · rintro ⟨required, optional, variadic, hsingle, hword⟩
    obtain ⟨more, -, hrest⟩ := required_cons_eq_word_iff.mp hword
    exact ⟨more, optional, variadic, hsingle, hrest⟩
  · rintro ⟨required, optional, variadic, hsingle, hrest⟩
    exact ⟨required + 1, optional, variadic, hsingle,
      required_cons_eq_word_iff.mpr ⟨required, rfl, hrest⟩⟩

/-- An optional property may stand in front of a legal shape that does not begin with a required
one. -/
theorem legal_optional_cons_iff :
    Legal (.optional :: rest) ↔ Legal rest ∧ rest.head? ≠ some .required := by
  constructor
  · rintro ⟨required, optional, variadic, hsingle, hword⟩
    obtain ⟨-, more, -, hrest⟩ := optional_cons_eq_word_iff.mp hword
    refine ⟨⟨0, more, variadic, hsingle, hrest⟩, fun hhead => ?_⟩
    obtain ⟨tail, rfl⟩ := List.head?_eq_some_iff.mp hhead
    obtain ⟨_, habsurd, -⟩ := required_cons_eq_word_iff.mp hrest
    omega
  · rintro ⟨⟨required, optional, variadic, hsingle, hrest⟩, hhead⟩
    have hnone : required = 0 := by
      by_contra hsome
      obtain ⟨more, rfl⟩ := Nat.exists_eq_succ_of_ne_zero hsome
      apply hhead
      rw [hrest, word, List.replicate_succ]
      rfl
    subst hnone
    exact ⟨0, optional + 1, variadic, hsingle,
      optional_cons_eq_word_iff.mpr ⟨rfl, optional, rfl, hrest⟩⟩

/-- A variadic property stands in front of nothing. -/
theorem legal_variadic_cons_iff : Legal (.variadic :: rest) ↔ rest = [] := by
  constructor
  · rintro ⟨required, optional, variadic, hsingle, hword⟩
    obtain ⟨-, -, more, rfl, hrest⟩ := variadic_cons_eq_word_iff.mp hword
    obtain rfl : more = 0 := by omega
    simpa [word] using hrest
  · rintro rfl
    exact ⟨0, 0, 1, Nat.le_refl 1, rfl⟩

end Letters

/-- A shape is legal exactly when each property may stand behind the one in front of it. -/
theorem legal_iff_isChain {cardinalities : List Cardinality} :
    Legal cardinalities ↔ cardinalities.IsChain MayPrecede := by
  induction cardinalities with
  | nil => exact iff_of_true ⟨0, 0, 0, Nat.zero_le 1, rfl⟩ List.IsChain.nil
  | cons first rest ih =>
    rw [List.isChain_cons, ← ih]
    cases first with
    | required => simp [legal_required_cons_iff, MayPrecede]
    | optional =>
      rw [legal_optional_cons_iff, and_comm]
      refine and_congr_left fun _ => ?_
      cases rest <;> simp [MayPrecede]
    | variadic =>
      rw [legal_variadic_cons_iff]
      cases rest with
      | nil => simp [ih]
      | cons next rest => simp [MayPrecede]

/-- A beginning of a legal shape is legal. -/
theorem Legal.of_isPrefix {beginning cardinalities : List Cardinality} (h : Legal cardinalities)
    (hbeginning : beginning <+: cardinalities) : Legal beginning := by
  obtain ⟨rest, rfl⟩ := hbeginning
  exact legal_iff_isChain.mpr (legal_iff_isChain.mp h).left_of_append

/-- A shape in which a property stands where it may not is illegal. -/
theorem not_legal_of_not_mayPrecede (before : List Cardinality) {first next : Cardinality}
    (h : ¬ MayPrecede first next) : ¬ Legal (before ++ [first, next]) := by
  intro hlegal
  have hend := (legal_iff_isChain.mp hlegal).right_of_append
  exact h (List.isChain_cons_cons.mp hend).1

/-! ### The position of a fault -/

section Position

variable {properties before after : List Property} {next : Property} {e e' : ShapeError}

/-- A property is the first misplaced one if everything in front of it is in order, but not together
with it. -/
theorem isFirstMisplaced_of_split (hsplit : properties = before ++ next :: after)
    (hbefore : Legal (before.map (·.cardinality)))
    (hnext : ¬ Legal ((before ++ [next]).map (·.cardinality))) :
    IsFirstMisplaced properties before.length := by
  have htake : properties.take (before.length + 1) = before ++ [next] := by
    rw [hsplit, List.append_cons, ← List.length_singleton (a := next), ← List.length_append,
      List.take_left]
  constructor
  · refine ⟨?_, by rwa [htake]⟩
    rw [hsplit, List.length_append, List.length_cons]
    omega
  · rintro i ⟨-, hillegal⟩
    by_contra hlt
    have hbeginning : properties.take (i + 1) <+: before := by
      rw [hsplit, List.take_append_of_le_length (by omega)]
      exact List.take_prefix _ _
    exact hillegal (hbefore.of_isPrefix (hbeginning.map _))

/-- A shape with a misplaced property is illegal. -/
theorem IsFirstMisplaced.not_legal {position : Nat} (h : IsFirstMisplaced properties position) :
    ¬ Legal (properties.map (·.cardinality)) := by
  obtain ⟨-, hillegal⟩ := h.1
  intro hlegal
  exact hillegal (hlegal.of_isPrefix ((List.take_prefix _ _).map _))

/-- At one position, a property makes one fault. -/
theorem FaultAt.unique {position : Nat} (h : FaultAt properties position e)
    (h' : FaultAt properties position e') : e = e' := by
  cases h <;> cases h' <;> grind

end Position

/-- Properties have the cardinalities of their slots. -/
private theorem map_snd_slot (properties : List Property) :
    (properties.map (·.slot)).map (·.2) = properties.map (·.cardinality) := by
  rw [List.map_map]
  rfl

/-- The properties that make up given slots, cut where the slots are cut. -/
private theorem exists_split_of_map_slot {properties : List Property}
    {before after : List (String × Cardinality)} {tag : String} {cardinality : Cardinality}
    (h : properties.map (·.slot) = before ++ (tag, cardinality) :: after) :
    ∃ front property back, properties = front ++ property :: back ∧ front.map (·.slot) = before ∧
      property.tag = tag ∧ property.cardinality = cardinality ∧ back.map (·.slot) = after := by
  obtain ⟨front, rest, rfl, hfront, hrest⟩ := List.map_eq_append_iff.mp h
  obtain ⟨property, back, rfl, hslot, hback⟩ := List.map_eq_cons_iff.mp hrest
  obtain ⟨htag, hcardinality⟩ := Prod.mk.inj hslot
  exact ⟨front, property, back, rfl, hfront, htag, hcardinality, hback⟩

/-- Behind a variadic property at its legal place, the next property is the first misplaced one. -/
theorem isFirstMisplaced_behind_variadic {properties front back : List Property}
    {first next : Property} (hsplit : properties = front ++ first :: next :: back)
    (hfirst : first.cardinality = .variadic)
    (hfront : Legal (front.map (·.cardinality) ++ [.variadic])) :
    IsFirstMisplaced properties (front.length + 1) ∧
      properties[front.length]? = some first ∧ properties[front.length + 1]? = some next := by
  refine ⟨?_, by simp [hsplit], by simp [hsplit]⟩
  have hlength : front.length + 1 = (front ++ [first]).length := by simp
  have hcut : properties = (front ++ [first]) ++ next :: back := by simp [hsplit]
  rw [hlength]
  refine isFirstMisplaced_of_split hcut ?_ ?_
  · rwa [List.map_append, List.map_singleton, hfirst]
  · have hpair : ¬ MayPrecede first.cardinality next.cardinality := by simp [hfirst, MayPrecede]
    simpa using not_legal_of_not_mayPrecede (front.map (·.cardinality)) hpair

/-- A required property behind optional ones is the first misplaced one. -/
theorem isFirstMisplaced_behind_optional {properties front between back : List Property}
    {first late : Property} (hsplit : properties = front ++ first :: (between ++ late :: back))
    (hfront : ∀ p ∈ front, p.cardinality = .required)
    (hoptional : ∀ p ∈ first :: between, p.cardinality = .optional)
    (hlate : late.cardinality = .required) :
    IsFirstMisplaced properties (front ++ first :: between).length := by
  have hcut : properties = (front ++ first :: between) ++ late :: back := by simp [hsplit]
  refine isFirstMisplaced_of_split hcut ?_ ?_
  · refine ⟨front.length, between.length + 1, 0, Nat.zero_le 1, ?_⟩
    have hfrontWord : front.map (·.cardinality) = List.replicate front.length .required :=
      List.map_eq_replicate_iff.mpr hfront
    have hoptionalWord : (first :: between).map (·.cardinality) =
        List.replicate (between.length + 1) .optional :=
      List.map_eq_replicate_iff.mpr hoptional
    rw [List.map_append, hfrontWord, hoptionalWord]
    simp [word]
  · obtain ⟨others, last, hlast⟩ :=
      (List.eq_nil_or_concat (first :: between)).resolve_left (List.cons_ne_nil _ _)
    have hlastOptional : last.cardinality = .optional := hoptional last (by simp [hlast])
    have hpair : ¬ MayPrecede last.cardinality late.cardinality := by
      simp [hlastOptional, hlate, MayPrecede]
    have hillegal := not_legal_of_not_mayPrecede ((front ++ others).map (·.cardinality)) hpair
    rw [hlast]
    simpa using hillegal

/-- Behind required properties, the first optional one is found. -/
theorem find?_isOptional_eq_some {front rest : List Property} {first : Property}
    (hfront : ∀ p ∈ front, p.cardinality = .required) (hfirst : first.cardinality = .optional) :
    (front ++ first :: rest).find? (fun p => p.isNullable && !p.isVariadic) = some first := by
  have hnone : front.find? (fun p => p.isNullable && !p.isVariadic) = none := by
    rw [List.find?_eq_none]
    intro p hp
    have hflags := Property.cardinality_eq_required_iff.mp (hfront p hp)
    simp [hflags]
  have hflags := Property.cardinality_eq_optional_iff.mp hfirst
  rw [List.find?_append, hnone, List.find?_cons_of_pos (by simp [hflags]), Option.none_or]

/-- The reason for which a shape is refused is the fault of its first misplaced property. -/
theorem exists_faultAt_of_isFault {properties : List Property} {reason : ShapeError}
    (h : IsFault (properties.map (·.slot)) reason) :
    ∃ i, IsFirstMisplaced properties i ∧ FaultAt properties i reason := by
  cases h with
  | multipleVariadic hsplit hbefore =>
    obtain ⟨front, first, rest, rfl, rfl, rfl, hfirst, hrest⟩ := exists_split_of_map_slot hsplit
    obtain ⟨second, back, rfl, hslot, -⟩ := List.map_eq_cons_iff.mp hrest
    obtain ⟨rfl, hsecond⟩ := Prod.mk.inj hslot
    rw [map_snd_slot] at hbefore
    obtain ⟨hplace, hfirstAt, hsecondAt⟩ :=
      isFirstMisplaced_behind_variadic rfl hfirst hbefore
    exact ⟨_, hplace, .multipleVariadic rfl hfirstAt hsecondAt
      (Property.cardinality_eq_variadic_iff.mp hfirst)
      (Property.cardinality_eq_variadic_iff.mp hsecond)⟩
  | variadicNotLast hcardinality hsplit hbefore =>
    obtain ⟨front, first, rest, rfl, rfl, rfl, hfirst, hrest⟩ := exists_split_of_map_slot hsplit
    obtain ⟨next, back, rfl, hslot, -⟩ := List.map_eq_cons_iff.mp hrest
    obtain ⟨-, hnext⟩ := Prod.mk.inj hslot
    rw [map_snd_slot] at hbefore
    obtain ⟨hplace, hfirstAt, hnextAt⟩ := isFirstMisplaced_behind_variadic rfl hfirst hbefore
    have hnextVariadic : next.isVariadic = false := by
      rw [← Bool.not_eq_true, ← Property.cardinality_eq_variadic_iff, hnext]
      exact hcardinality
    exact ⟨_, hplace, .variadicNotLast rfl hfirstAt hnextAt
      (Property.cardinality_eq_variadic_iff.mp hfirst) hnextVariadic⟩
  | requiredAfterOptional hsplit hbefore hbetween =>
    obtain ⟨front, first, rest, rfl, rfl, rfl, hfirst, hrest⟩ := exists_split_of_map_slot hsplit
    obtain ⟨between, late, back, rfl, rfl, rfl, hlate, -⟩ := exists_split_of_map_slot hrest
    have hfront : ∀ p ∈ front, p.cardinality = .required := List.forall_mem_map.mp hbefore
    have hoptional : ∀ p ∈ first :: between, p.cardinality = .optional :=
      List.forall_mem_cons.mpr ⟨hfirst, List.forall_mem_map.mp hbetween⟩
    refine ⟨_, isFirstMisplaced_behind_optional rfl hfront hoptional hlate,
      .requiredAfterOptional (by simp) ?_ (find?_isOptional_eq_some hfront hfirst)⟩
    intro before property hposition hproperty
    have hmem : property ∈ front ++ first :: between := by
      have hlt : before < (front ++ first :: between).length := by omega
      rw [List.append_cons, ← List.append_assoc, List.getElem?_append_left (by simpa using hlt)]
        at hproperty
      simpa using List.mem_of_getElem? hproperty
    rcases List.mem_append.mp hmem with hmem | hmem
    · exact (Property.cardinality_eq_required_iff.mp (hfront property hmem)).2
    · exact (Property.cardinality_eq_optional_iff.mp (hoptional property hmem)).2

/-! ### The verdict on a shape -/

theorem uncrossed_tally (properties : List Property) : (tally properties).Uncrossed := by
  intro max hmax
  unfold tally at hmax ⊢
  split at hmax
  · cases hmax
  · cases hmax
    exact Nat.le_add_right _ _

/-- An accepted shape is legal, and its arity is the tally of its properties. -/
theorem arity_eq_ok_iff_tally {properties : List Property} {result : Arity} :
    arity properties = .ok result ↔
      Legal (properties.map (·.cardinality)) ∧ result = tally properties := by
  have hcount {result : Arity} (hok : arity properties = .ok result) :
      result = tally properties := by
    obtain ⟨required, optional, variadic, hparts, rfl⟩ := exists_parts_of_arity_eq_ok hok
    rw [tally, hparts.countP_isRequired, hparts.countP_isOptional, hparts.any_isVariadic, arityOf]
    by_cases hvariadic : variadic.length = 0 <;> simp [hvariadic]
  constructor
  · intro hok
    exact ⟨exists_arity_eq_ok_iff.mp ⟨result, hok⟩, hcount hok⟩
  · rintro ⟨hlegal, rfl⟩
    obtain ⟨result, hok⟩ := exists_arity_eq_ok_iff.mpr hlegal
    rwa [← hcount hok]

/-- A shape is refused for the fault of its first misplaced property. -/
theorem arity_eq_error_iff {properties : List Property} {reason : ShapeError} :
    arity properties = .error reason ↔
      ∃ i, IsFirstMisplaced properties i ∧ FaultAt properties i reason := by
  constructor
  · intro herror
    exact exists_faultAt_of_isFault (isFault_of_arity_eq_error herror)
  · rintro ⟨i, hplace, hfault⟩
    cases hresult : arity properties with
    | ok result => exact absurd (arity_eq_ok_iff_tally.mp hresult).1 hplace.not_legal
    | error found =>
      obtain ⟨j, hplaceFound, hfaultFound⟩ :=
        exists_faultAt_of_isFault (isFault_of_arity_eq_error hresult)
      obtain rfl := hplace.unique hplaceFound
      rw [hfault.unique hfaultFound]

/-- **The verdict on a shape.** It is accepted exactly when it is legal, with the arity that its
properties add up to, whose ends do not cross; otherwise it is refused for the fault of its first
misplaced property. -/
theorem arity_ok_iff_legal_and_error_iff_faultAt (properties : List Property) :
    (∀ result, arity properties = .ok result ↔
      Legal (properties.map (·.cardinality)) ∧ result = tally properties) ∧
    (tally properties).Uncrossed ∧
    ∀ reason, arity properties = .error reason ↔
      ∃ i, IsFirstMisplaced properties i ∧ FaultAt properties i reason :=
  ⟨fun _ => arity_eq_ok_iff_tally, uncrossed_tally properties, fun _ => arity_eq_error_iff⟩

end Shape

end DomainEvolution

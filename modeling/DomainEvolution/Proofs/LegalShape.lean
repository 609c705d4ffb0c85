import DomainEvolution.Shape
import Mathlib.Data.List.Basic

/-!
# Legal shapes

A tuple has an arity exactly when the cardinalities of its properties form a word of a regular
language: required ones, optional ones, and at most one variadic one. The arity is read off the
word. Any other shape is refused with the first property that cannot stand where it stands.
-/

namespace DomainEvolution

namespace Property

/-- What the shape of a tuple depends on. -/
def slot (property : Property) : String × Cardinality := (property.tag, property.cardinality)

/-- A property is variadic by its cardinality exactly when it is flagged so. -/
theorem cardinality_eq_variadic_iff {property : Property} :
    property.cardinality = .variadic ↔ property.isVariadic = true := by
  unfold cardinality
  cases property.isVariadic <;> cases property.isNullable <;> simp

/-- A property is optional by its cardinality exactly when it is nullable and not variadic. -/
theorem cardinality_eq_optional_iff {property : Property} :
    property.cardinality = .optional ↔
      property.isNullable = true ∧ property.isVariadic = false := by
  unfold cardinality
  cases property.isVariadic <;> cases property.isNullable <;> simp

/-- A property is required by its cardinality exactly when it has neither flag. -/
theorem cardinality_eq_required_iff {property : Property} :
    property.cardinality = .required ↔
      property.isNullable = false ∧ property.isVariadic = false := by
  unfold cardinality
  cases property.isVariadic <;> cases property.isNullable <;> simp

end Property

namespace Shape

/-- The word of a legal shape. -/
def word (required optional variadic : Nat) : List Cardinality :=
  List.replicate required .required ++ List.replicate optional .optional ++
    List.replicate variadic .variadic

/-- Required properties come first, then optional ones, and then at most one variadic one. -/
def Legal (cardinalities : List Cardinality) : Prop :=
  ∃ required optional variadic, variadic ≤ 1 ∧ cardinalities = word required optional variadic

/-- The arity of a legal shape. -/
def arityOf (required optional variadic : Nat) : Arity :=
  ⟨required, if variadic = 0 then .bounded (required + optional) else .unbounded⟩

/-- What is wrong with a shape, given by the tags and the cardinalities of its properties: a
property behind a variadic one, or a required one behind optional ones, with everything before it in
legal order. -/
inductive IsFault (slots : List (String × Cardinality)) : ShapeError → Prop
  | multipleVariadic {before after : List (String × Cardinality)} {first second : String}
      (hsplit : slots = before ++ (first, .variadic) :: (second, .variadic) :: after)
      (hbefore : Legal (before.map (·.2) ++ [.variadic])) :
      IsFault slots (.multipleVariadic first second)
  | variadicNotLast {before after : List (String × Cardinality)} {first next : String}
      {cardinality : Cardinality} (hcardinality : cardinality ≠ .variadic)
      (hsplit : slots = before ++ (first, .variadic) :: (next, cardinality) :: after)
      (hbefore : Legal (before.map (·.2) ++ [.variadic])) :
      IsFault slots (.variadicNotLast first)
  | requiredAfterOptional {before between after : List (String × Cardinality)}
      {first late : String}
      (hsplit : slots = before ++ (first, .optional) :: (between ++ (late, .required) :: after))
      (hbefore : ∀ slot ∈ before, slot.2 = .required)
      (hbetween : ∀ slot ∈ between, slot.2 = .optional) :
      IsFault slots (.requiredAfterOptional late first)

/-! ### Words letter by letter -/

section Words

variable {required optional variadic : Nat} {rest : List Cardinality}

/-- The empty word has no letters of any kind. -/
theorem nil_eq_word_iff : [] = word required optional variadic ↔
    required = 0 ∧ optional = 0 ∧ variadic = 0 := by
  rw [eq_comm]
  simp [word]

/-- A word that begins with a required property has one more of them than its rest. -/
theorem required_cons_eq_word_iff : .required :: rest = word required optional variadic ↔
    ∃ more, required = more + 1 ∧ rest = word more optional variadic := by
  cases required with
  | zero => cases optional <;> cases variadic <;> simp [word, List.replicate_succ]
  | succ required => simp [word, List.replicate_succ]

/-- A word that begins with an optional property has no required ones. -/
theorem optional_cons_eq_word_iff : .optional :: rest = word required optional variadic ↔
    required = 0 ∧ ∃ more, optional = more + 1 ∧ rest = word 0 more variadic := by
  cases required with
  | succ required => simp [word, List.replicate_succ]
  | zero => cases optional <;> cases variadic <;> simp [word, List.replicate_succ]

/-- A word that begins with a variadic property has no others than variadic ones. -/
theorem variadic_cons_eq_word_iff : .variadic :: rest = word required optional variadic ↔
    required = 0 ∧ optional = 0 ∧ ∃ more, variadic = more + 1 ∧ rest = word 0 0 more := by
  cases required with
  | succ required => simp [word, List.replicate_succ]
  | zero => cases optional <;> cases variadic <;> simp [word, List.replicate_succ]

end Words

/-! ### Accepted shapes -/

/-- Nothing may follow a variadic property. -/
theorem afterVariadic_eq_ok_iff {variadic : Property} {arity result : Arity}
    {rest : List Property} :
    afterVariadic variadic arity rest = .ok result ↔ rest = [] ∧ result = arity := by
  cases rest with
  | nil => simp [afterVariadic, eq_comm]
  | cons next rest =>
    simp only [afterVariadic, reduceCtorEq, false_and, iff_false]
    split <;> simp

/-- Behind an optional property, more optional ones and at most one variadic one may follow. -/
theorem afterOptional_eq_ok_iff {required optional : Nat} {first : Property} {result : Arity}
    {rest : List Property} :
    afterOptional required first optional rest = .ok result ↔
      ∃ more variadic, variadic ≤ 1 ∧ rest.map (·.cardinality) = word 0 more variadic ∧
        result = arityOf required (optional + more) variadic := by
  induction rest generalizing optional with
  | nil =>
    simp only [afterOptional, Except.ok.injEq, List.map_nil, nil_eq_word_iff]
    constructor
    · rintro rfl
      exact ⟨0, 0, by omega, by simp, rfl⟩
    · rintro ⟨more, variadic, _, ⟨_, rfl, rfl⟩, rfl⟩
      rfl
  | cons next rest ih =>
    unfold afterOptional
    split
    · next hnext => simp [hnext, required_cons_eq_word_iff]
    · next hnext =>
      simp only [ih, List.map_cons, hnext, optional_cons_eq_word_iff, true_and]
      constructor
      · rintro ⟨more, variadic, hle, hword, rfl⟩
        exact ⟨more + 1, variadic, hle, ⟨more, rfl, hword⟩, by congr 1; omega⟩
      · rintro ⟨_, variadic, hle, ⟨more, rfl, hword⟩, rfl⟩
        exact ⟨more, variadic, hle, hword, by congr 1; omega⟩
    · next hnext =>
      simp only [afterVariadic_eq_ok_iff, List.map_cons, hnext, variadic_cons_eq_word_iff,
        true_and]
      constructor
      · rintro ⟨rfl, rfl⟩
        exact ⟨0, 1, by omega, ⟨rfl, 0, rfl, rfl⟩, rfl⟩
      · rintro ⟨_, _, hle, ⟨rfl, more, rfl, hword⟩, rfl⟩
        obtain rfl : more = 0 := by omega
        exact ⟨List.map_eq_nil_iff.mp hword, rfl⟩

/-- Behind required properties, any legal shape may follow. -/
theorem afterRequired_eq_ok_iff {required : Nat} {result : Arity} {rest : List Property} :
    afterRequired required rest = .ok result ↔
      ∃ more optional variadic, variadic ≤ 1 ∧
        rest.map (·.cardinality) = word more optional variadic ∧
        result = arityOf (required + more) optional variadic := by
  induction rest generalizing required with
  | nil =>
    simp only [afterRequired, Except.ok.injEq, List.map_nil, nil_eq_word_iff]
    constructor
    · rintro rfl
      exact ⟨0, 0, 0, by omega, by simp, rfl⟩
    · rintro ⟨more, optional, variadic, _, ⟨rfl, rfl, rfl⟩, rfl⟩
      rfl
  | cons next rest ih =>
    unfold afterRequired
    split
    · next hnext =>
      simp only [ih, List.map_cons, hnext, required_cons_eq_word_iff]
      constructor
      · rintro ⟨more, optional, variadic, hle, hword, rfl⟩
        exact ⟨more + 1, optional, variadic, hle, ⟨more, rfl, hword⟩, by congr 1; omega⟩
      · rintro ⟨_, optional, variadic, hle, ⟨more, rfl, hword⟩, rfl⟩
        exact ⟨more, optional, variadic, hle, hword, by congr 1; omega⟩
    · next hnext =>
      simp only [afterOptional_eq_ok_iff, List.map_cons, hnext, optional_cons_eq_word_iff]
      constructor
      · rintro ⟨more, variadic, hle, hword, rfl⟩
        exact ⟨0, more + 1, variadic, hle, ⟨rfl, more, rfl, hword⟩, by congr 1; omega⟩
      · rintro ⟨_, _, variadic, hle, ⟨rfl, more, rfl, hword⟩, rfl⟩
        exact ⟨more, variadic, hle, hword, by congr 1; omega⟩
    · next hnext =>
      simp only [afterVariadic_eq_ok_iff, List.map_cons, hnext, variadic_cons_eq_word_iff]
      constructor
      · rintro ⟨rfl, rfl⟩
        exact ⟨0, 0, 1, by omega, ⟨rfl, rfl, 0, rfl, rfl⟩, rfl⟩
      · rintro ⟨_, _, _, hle, ⟨rfl, rfl, more, rfl, hword⟩, rfl⟩
        obtain rfl : more = 0 := by omega
        exact ⟨List.map_eq_nil_iff.mp hword, rfl⟩

/-- The accepted shapes are the legal ones, and the arity counts their properties. -/
theorem arity_eq_ok_iff {properties : List Property} {result : Arity} :
    arity properties = .ok result ↔
      ∃ required optional variadic, variadic ≤ 1 ∧
        properties.map (·.cardinality) = word required optional variadic ∧
        result = arityOf required optional variadic := by
  rw [arity, afterRequired_eq_ok_iff]
  simp only [Nat.zero_add]

/-- A shape is accepted exactly when it is legal. -/
theorem exists_arity_eq_ok_iff {properties : List Property} :
    (∃ result, arity properties = .ok result) ↔ Legal (properties.map (·.cardinality)) := by
  simp only [arity_eq_ok_iff, Legal]
  constructor
  · rintro ⟨_, required, optional, variadic, hle, hword, _⟩
    exact ⟨required, optional, variadic, hle, hword⟩
  · rintro ⟨required, optional, variadic, hle, hword⟩
    exact ⟨_, required, optional, variadic, hle, hword, rfl⟩

/-- The counts that a legal shape accepts. -/
theorem accepts_arityOf_iff {required optional variadic count : Nat} :
    (arityOf required optional variadic).accepts count = true ↔
      required ≤ count ∧ (variadic = 0 → count ≤ required + optional) := by
  unfold arityOf Arity.accepts
  by_cases hvariadic : variadic = 0
  · simp [hvariadic]
  · simp [hvariadic]

/-! ### The parts of a legal shape -/

/-- A list of properties cut where their cardinality changes. -/
structure Parts (properties required optional variadic : List Property) : Prop where
  split : properties = required ++ (optional ++ variadic)
  all_required : ∀ p ∈ required, p.cardinality = .required
  all_optional : ∀ p ∈ optional, p.cardinality = .optional
  all_variadic : ∀ p ∈ variadic, p.cardinality = .variadic
  single : variadic.length ≤ 1

namespace Parts

variable {properties required optional variadic : List Property}
  (h : Parts properties required optional variadic)
include h

/-- A test of cardinalities holds of all the properties of a part or of none. -/
theorem countP_cardinality (test : Cardinality → Bool) :
    properties.countP (test ·.cardinality) =
      (if test .required then required.length else 0) +
        ((if test .optional then optional.length else 0) +
          if test .variadic then variadic.length else 0) := by
  have hpart {part : List Property} {c : Cardinality} (hc : ∀ p ∈ part, p.cardinality = c) :
      part.countP (test ·.cardinality) = if test c then part.length else 0 := by
    split
    · rw [List.countP_eq_length]
      intro p hp
      rwa [hc p hp]
    · rw [List.countP_eq_zero]
      intro p hp
      rwa [hc p hp]
  rw [h.split, List.countP_append, List.countP_append, hpart h.all_required, hpart h.all_optional,
    hpart h.all_variadic]

theorem countP_isRequired : properties.countP (·.isRequired) = required.length := by
  have htest : Property.isRequired = fun p => p.cardinality == .required := by
    funext p
    rw [Bool.eq_iff_iff, beq_iff_eq, Property.cardinality_eq_required_iff]
    simp [Property.isRequired, and_comm]
  rw [htest, h.countP_cardinality (· == .required)]
  simp

theorem countP_isOptional :
    properties.countP (fun p => p.isNullable && !p.isVariadic) = optional.length := by
  have htest : (fun p : Property => p.isNullable && !p.isVariadic) =
      fun p => p.cardinality == .optional := by
    funext p
    rw [Bool.eq_iff_iff, beq_iff_eq, Property.cardinality_eq_optional_iff]
    simp
  rw [htest, h.countP_cardinality (· == .optional)]
  simp

theorem countP_not_isVariadic :
    properties.countP (!·.isVariadic) = required.length + optional.length := by
  have htest : (fun p : Property => !p.isVariadic) = fun p => p.cardinality != .variadic := by
    funext p
    rw [Bool.eq_iff_iff, bne_iff_ne, Ne, Property.cardinality_eq_variadic_iff]
    simp
  rw [htest, h.countP_cardinality (· != .variadic)]
  simp

/-- Some property is variadic exactly when the last part is not empty. -/
theorem any_isVariadic : properties.any (·.isVariadic) = decide (variadic.length ≠ 0) := by
  have hcount := h.countP_cardinality (· == .variadic)
  have hany : properties.any (·.isVariadic) = true ↔
      0 < properties.countP (·.cardinality == .variadic) := by
    simp [List.countP_pos_iff, Property.cardinality_eq_variadic_iff]
  rw [Bool.eq_iff_iff, hany, hcount]
  simp [Nat.pos_iff_ne_zero]

/-- There is no variadic property, or a single one. -/
theorem variadic_eq : variadic = [] ∨ ∃ only, only.isVariadic = true ∧ variadic = [only] := by
  rcases Nat.le_one_iff_eq_zero_or_eq_one.mp h.single with hlength | hlength
  · exact Or.inl (List.length_eq_zero_iff.mp hlength)
  · obtain ⟨only, rfl⟩ := List.length_eq_one_iff.mp hlength
    have honly := h.all_variadic only List.mem_cons_self
    exact Or.inr ⟨only, Property.cardinality_eq_variadic_iff.mp honly, rfl⟩

/-- The last property is variadic exactly when the last part is not empty. -/
theorem isVariadic_getLast {last : Property} (hlast : last ∈ properties.getLast?) :
    last.isVariadic = decide (variadic.length ≠ 0) := by
  rw [h.split] at hlast
  rcases h.variadic_eq with rfl | ⟨only, honly, rfl⟩
  · rw [List.append_nil] at hlast
    rcases List.mem_append.mp (List.mem_of_getLast? hlast) with hmem | hmem
    · exact (Property.cardinality_eq_required_iff.mp (h.all_required last hmem)).2
    · exact (Property.cardinality_eq_optional_iff.mp (h.all_optional last hmem)).2
  · rw [← List.append_assoc, List.getLast?_concat] at hlast
    cases hlast
    exact honly

end Parts

/-- Properties that have one cardinality throughout, and how many they are. -/
private theorem of_map_cardinality_eq_replicate {run : List Property} {count : Nat}
    {c : Cardinality} (h : run.map (·.cardinality) = List.replicate count c) :
    run.length = count ∧ ∀ p ∈ run, p.cardinality = c := by
  obtain ⟨hlength, hall⟩ := List.eq_replicate_iff.mp h
  rw [List.length_map] at hlength
  exact ⟨hlength, List.forall_mem_map.mp hall⟩

/-- The properties of an accepted shape fall into three parts, and the arity counts them. -/
theorem exists_parts_of_arity_eq_ok {properties : List Property} {result : Arity}
    (hok : arity properties = .ok result) :
    ∃ required optional variadic, Parts properties required optional variadic ∧
      result = arityOf required.length optional.length variadic.length := by
  obtain ⟨m, n, k, hsingle, hword, rfl⟩ := arity_eq_ok_iff.mp hok
  rw [word, List.append_assoc] at hword
  obtain ⟨required, rest, rfl, hrequired, hrest⟩ := List.map_eq_append_iff.mp hword
  obtain ⟨optional, variadic, rfl, hoptional, hvariadic⟩ := List.map_eq_append_iff.mp hrest
  obtain ⟨rfl, allRequired⟩ := of_map_cardinality_eq_replicate hrequired
  obtain ⟨rfl, allOptional⟩ := of_map_cardinality_eq_replicate hoptional
  obtain ⟨rfl, allVariadic⟩ := of_map_cardinality_eq_replicate hvariadic
  exact ⟨required, optional, variadic, ⟨rfl, allRequired, allOptional, allVariadic, hsingle⟩, rfl⟩

/-! ### Refused shapes -/

/-- Slots that all have one cardinality list it once for each slot. -/
private theorem map_snd_eq_replicate {slots : List (String × Cardinality)} {c : Cardinality}
    (h : ∀ slot ∈ slots, slot.2 = c) : slots.map (·.2) = List.replicate slots.length c := by
  rw [List.eq_replicate_iff, List.length_map]
  exact ⟨rfl, fun b hb => by obtain ⟨slot, hslot, rfl⟩ := List.mem_map.mp hb; exact h slot hslot⟩

/-- What follows a variadic property at its legal place is a fault. -/
theorem isFault_of_afterVariadic {before : List (String × Cardinality)} {variadic : Property}
    {arity : Arity} {rest : List Property} {reason : ShapeError}
    (hvariadic : variadic.cardinality = .variadic)
    (hbefore : Legal (before.map (·.2) ++ [.variadic]))
    (herror : afterVariadic variadic arity rest = .error reason) :
    IsFault (before ++ variadic.slot :: rest.map (·.slot)) reason := by
  have hslot : variadic.slot = (variadic.tag, .variadic) := by rw [Property.slot, hvariadic]
  cases rest with
  | nil => cases herror
  | cons next rest =>
    rw [List.map_cons, hslot]
    by_cases hnext : next.isVariadic = true
    · simp only [afterVariadic, hnext, if_true, Except.error.injEq] at herror
      subst herror
      have hnextSlot : next.slot = (next.tag, .variadic) := by
        rw [Property.slot, Property.cardinality_eq_variadic_iff.mpr hnext]
      rw [hnextSlot]
      exact .multipleVariadic rfl hbefore
    · simp only [afterVariadic, hnext, Bool.false_eq_true, if_false, Except.error.injEq] at herror
      subst herror
      exact .variadicNotLast (mt Property.cardinality_eq_variadic_iff.mp hnext) rfl hbefore

/-- A refusal behind required properties and then optional ones is a fault of the whole shape. -/
theorem isFault_of_afterOptional {before : List (String × Cardinality)}
    (between : List (String × Cardinality)) {first : Property} {required optional : Nat}
    {rest : List Property} {reason : ShapeError}
    (hbefore : ∀ slot ∈ before, slot.2 = .required) (hfirst : first.cardinality = .optional)
    (hbetween : ∀ slot ∈ between, slot.2 = .optional)
    (herror : afterOptional required first optional rest = .error reason) :
    IsFault (before ++ first.slot :: (between ++ rest.map (·.slot))) reason := by
  induction rest generalizing between optional with
  | nil => cases herror
  | cons next rest ih =>
    unfold afterOptional at herror
    rw [List.map_cons]
    split at herror
    · next hnext =>
      cases herror
      have hsplit : before ++ first.slot :: (between ++ next.slot :: rest.map (·.slot)) =
          before ++ (first.tag, .optional) ::
            (between ++ (next.tag, .required) :: rest.map (·.slot)) := by
        rw [Property.slot, hfirst, Property.slot, hnext]
      exact .requiredAfterOptional hsplit hbefore hbetween
    · next hnext =>
      rw [List.append_cons between]
      exact ih _ (List.forall_mem_append.mpr ⟨hbetween, List.forall_mem_singleton.mpr hnext⟩) herror
    · next hnext =>
      have hsplit : before ++ first.slot :: (between ++ next.slot :: rest.map (·.slot)) =
          (before ++ first.slot :: between) ++ next.slot :: rest.map (·.slot) := by simp
      rw [hsplit]
      refine isFault_of_afterVariadic hnext ?_ herror
      refine ⟨before.length, between.length + 1, 1, Nat.le_refl 1, ?_⟩
      rw [List.map_append, List.map_cons, map_snd_eq_replicate hbefore,
        map_snd_eq_replicate hbetween, Property.slot, hfirst]
      rfl

/-- A refusal behind required properties is a fault of the whole shape. -/
theorem isFault_of_afterRequired (before : List (String × Cardinality)) {required : Nat}
    {rest : List Property} {reason : ShapeError} (hbefore : ∀ slot ∈ before, slot.2 = .required)
    (herror : afterRequired required rest = .error reason) :
    IsFault (before ++ rest.map (·.slot)) reason := by
  induction rest generalizing before required with
  | nil => cases herror
  | cons next rest ih =>
    unfold afterRequired at herror
    rw [List.map_cons]
    split at herror
    · next hnext =>
      rw [List.append_cons]
      exact ih _ (List.forall_mem_append.mpr ⟨hbefore, List.forall_mem_singleton.mpr hnext⟩) herror
    · next hnext =>
      exact isFault_of_afterOptional [] hbefore hnext (by simp) herror
    · next hnext =>
      refine isFault_of_afterVariadic hnext ?_ herror
      refine ⟨before.length, 0, 1, Nat.le_refl 1, ?_⟩
      rw [map_snd_eq_replicate hbefore]
      simp [word]

/-- The reason for which a shape is refused is true of it. -/
theorem isFault_of_arity_eq_error {properties : List Property} {reason : ShapeError}
    (herror : arity properties = .error reason) :
    IsFault (properties.map (·.slot)) reason :=
  isFault_of_afterRequired [] (by simp) herror

end Shape

end DomainEvolution

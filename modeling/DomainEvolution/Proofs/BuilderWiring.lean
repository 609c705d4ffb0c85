import DomainEvolution.Proofs.BuilderCoverage
import Mathlib.Data.List.DropRight

/-!
# What builders pass to a constructor

A builder takes the first properties of its tuple and passes them on, each under its own name. The
others it leaves out, and all of them can be left out: behind any list of properties, legal or not,
stands a run of optional ones with at most one variadic property behind it, and only these are ever
dropped. In a record, leaving out parameters of the longest builder comes to the same as calling a
shorter one.
-/

namespace DomainEvolution

/-- The parameter whose value is passed on, if there is one. -/
def Argument.parameter? : Argument → Option String
  | .parameter name => some name
  | .absent => none
  | .empty => none

/-- What stands for a property that is left out: no values for a variadic one, and no value for an
optional one. Nothing stands for a required property. -/
inductive Property.OmittedAs (property : Property) : Argument → Prop
  | empty (hvariadic : property.isVariadic = true) : OmittedAs property .empty
  | absent (hvariadic : property.isVariadic = false) (hnullable : property.isNullable = true) :
      OmittedAs property .absent

namespace Overload

/-- A builder takes a beginning of the properties and passes it on; the rest is left out. -/
structure Wired (properties : List Property) (builder : Builder) : Prop where
  parameters : builder.parameters.map (fun p => (p.name, p.typeName)) <+:
    properties.map fun p => (p.name, p.typeName)
  arguments : builder.arguments.map (·.name) = properties.map (·.name)
  forwarded : ∀ (i : Nat) (parameter : Parameter), builder.parameters[i]? = some parameter →
    builder.arguments[i]? = some ⟨parameter.name, .parameter parameter.name⟩
  omitted : ∀ (i : Nat) (property : Property), properties[i]? = some property →
    builder.parameters.length ≤ i → ∃ value,
      property.OmittedAs value ∧ builder.arguments[i]? = some ⟨property.name, value⟩
  required : ∀ (i : Nat) (property : Property), properties[i]? = some property →
    property.isRequired = true →
      builder.arguments[i]? = some ⟨property.name, .parameter property.name⟩
  used_once : builder.arguments.filterMap (·.value.parameter?) = builder.parameters.map (·.name)
  parameters_nodup : (builder.parameters.map (·.name)).Nodup
  arguments_nodup : (builder.arguments.map (·.name)).Nodup

/-- A shorter builder passes on what the longest one does, with the default values of the parameters
that it does not have. -/
structure FilledFrom (longest shorter : Builder) : Prop where
  kept : shorter.arguments.take shorter.parameters.length =
    longest.arguments.take shorter.parameters.length
  filled :
    (shorter.arguments.drop shorter.parameters.length).map (fun a => (a.name, some a.value)) =
      (longest.parameters.drop shorter.parameters.length).map fun p => (p.name, p.defaultValue)

/-- The builders of a tuple, the longest one apart. The shorter ones have one parameter less from
one to the next, counted from the positional properties, and none of them runs out of these. -/
structure Wiring (tuple : Tuple) (longest : Builder) (shorter : List Builder) : Prop where
  wired : ∀ builder ∈ longest :: shorter, Wired tuple.properties builder
  longest_length : longest.parameters.length = tuple.properties.length
  positional : positional tuple.properties <+: tuple.properties
  shorter_length : ∀ (i : Nat) (builder : Builder), shorter[i]? = some builder →
    builder.parameters.length + (i + 1) = (Overload.positional tuple.properties).length
  filled : tuple.isRecord = true → ∀ builder ∈ shorter, FilledFrom longest builder

/-! ### Properties that can be left out -/

/-- A value stands for every property that is not required. -/
theorem omitted?_eq_some {property : Property} (h : property.isRequired = false) :
    ∃ value, property.OmittedAs value ∧ omitted? property = some value := by
  unfold omitted?
  by_cases hvariadic : property.isVariadic = true
  · exact ⟨.empty, .empty hvariadic, if_pos hvariadic⟩
  · rw [Bool.not_eq_true] at hvariadic
    have hnullable : property.isNullable = true := by
      simpa [Property.isRequired, hvariadic] using h
    exact ⟨.absent, .absent hvariadic hnullable, by simp [hvariadic, hnullable]⟩

/-- Behind any list of properties stands a run of optional ones, at most followed by a variadic
one. -/
theorem exists_omittable_end (properties : List Property) :
    ∃ front run rest, properties = front ++ (run ++ rest) ∧ positional properties = front ++ run ∧
      run.length = optionalRun (positional properties) ∧
      ∀ p ∈ run ++ rest, p.isRequired = false := by
  obtain ⟨rest, hsplit, hrest⟩ : ∃ rest, properties = positional properties ++ rest ∧
      ∀ p ∈ rest, p.isRequired = false := by
    unfold positional
    split
    · next last hlast =>
      split
      · next hvariadic =>
        refine ⟨[last], (List.dropLast_append_getLast? last hlast).symm, ?_⟩
        simp [Property.isRequired, hvariadic]
      · exact ⟨[], (List.append_nil _).symm, by simp⟩
    · exact ⟨[], (List.append_nil _).symm, by simp⟩
  let optional : Property → Bool := fun p => p.isNullable && !p.isVariadic
  have hrun : (positional properties).rdropWhile optional ++
      (positional properties).rtakeWhile optional = positional properties :=
    List.rdropWhile_append_rtakeWhile
  refine ⟨_, (positional properties).rtakeWhile optional, rest, ?_, hrun.symm, ?_, ?_⟩
  · rw [← List.append_assoc, hrun]
    exact hsplit
  · exact List.length_reverse
  · intro p hp
    rcases List.mem_append.mp hp with hp | hp
    · have hoptional : optional p = true := List.mem_rtakeWhile_imp hp
      rw [Bool.and_eq_true] at hoptional
      simp [Property.isRequired, hoptional.1]
    · exact hrest p hp

/-! ### One builder -/

/-- The arguments of a builder that takes the first properties. -/
def passedOn (properties : List Property) (kept : Nat) : List ConstructorArgument :=
  (properties.take kept).map forward ++ (properties.drop kept).map leaveOut

theorem leaveOut_eq_of_omitted? {property : Property} {value : Argument}
    (h : omitted? property = some value) : leaveOut property = ⟨property.name, value⟩ := by
  rw [leaveOut, h]
  rfl

section Kept

variable {properties : List Property} {kept : Nat}

/-- There is one argument for each property, under its name. -/
theorem map_name_passedOn : (passedOn properties kept).map (·.name) = properties.map (·.name) := by
  rw [passedOn, List.map_append, List.map_map, List.map_map]
  change (properties.take kept).map (·.name) ++ (properties.drop kept).map (·.name) = _
  rw [← List.map_append, List.take_append_drop]

/-- The parameters that are passed on are those of the properties that are kept. -/
theorem filterMap_parameter?_passedOn
    (homitted : ∀ p ∈ properties.drop kept, p.isRequired = false) :
    (passedOn properties kept).filterMap (·.value.parameter?) =
      (properties.take kept).map (·.name) := by
  have hnone : ((properties.drop kept).map leaveOut).filterMap (·.value.parameter?) = [] := by
    rw [List.filterMap_eq_nil_iff, List.forall_mem_map]
    intro p hp
    obtain ⟨value, hvalue, hsome⟩ := omitted?_eq_some (homitted p hp)
    rw [leaveOut_eq_of_omitted? hsome]
    cases hvalue <;> rfl
  rw [passedOn, List.filterMap_append, hnone, List.append_nil, List.filterMap_map]
  exact congrFun List.filterMap_eq_map _

variable (hkept : kept ≤ properties.length)
include hkept

theorem length_map_forward : ((properties.take kept).map forward).length = kept := by
  rw [List.length_map, List.length_take, Nat.min_eq_left hkept]

/-- The argument for a property depends on whether the property is among those that are kept. -/
theorem getElem?_passedOn (i : Nat) :
    (passedOn properties kept)[i]? =
      properties[i]?.map (if i < kept then forward else leaveOut) := by
  have hlength := length_map_forward hkept
  rw [passedOn]
  by_cases hi : i < kept
  · rw [List.getElem?_append_left (by rwa [hlength]), List.getElem?_map,
      List.getElem?_take_of_lt hi, if_pos hi]
  · rw [List.getElem?_append_right (by rw [hlength]; omega), hlength, List.getElem?_map,
      List.getElem?_drop, Nat.add_sub_cancel' (Nat.le_of_not_lt hi), if_neg hi]

/-- A builder that takes the first properties is wired to them if it may leave out the others. -/
theorem wired_of_kept {builder : Builder}
    (hparameters : builder.parameters.map (fun p => (p.name, p.typeName)) =
      (properties.take kept).map fun p => (p.name, p.typeName))
    (harguments : builder.arguments = passedOn properties kept)
    (homitted : ∀ p ∈ properties.drop kept, p.isRequired = false)
    (hnames : (properties.map (·.name)).Nodup) : Wired properties builder := by
  have hlength : builder.parameters.length = kept := by
    simpa [Nat.min_eq_left hkept] using congrArg List.length hparameters
  have hparameterNames : builder.parameters.map (·.name) =
      (properties.take kept).map (·.name) := by
    simpa [Function.comp_def] using congrArg (List.map Prod.fst) hparameters
  have hargumentNames : builder.arguments.map (·.name) = properties.map (·.name) := by
    rw [harguments, map_name_passedOn]
  have hargument (i : Nat) : builder.arguments[i]? =
      properties[i]?.map (if i < kept then forward else leaveOut) := by
    rw [harguments, getElem?_passedOn hkept]
  have homittedAt {i : Nat} {property : Property} (hproperty : properties[i]? = some property)
      (hi : kept ≤ i) : property.isRequired = false := by
    refine homitted property (List.mem_of_getElem? (i := i - kept) ?_)
    rwa [List.getElem?_drop, Nat.add_sub_cancel' hi]
  refine ⟨?_, hargumentNames, ?_, ?_, ?_, ?_, ?_, ?_⟩
  · rw [hparameters]
    exact (List.take_prefix _ _).map _
  · intro i parameter hparameter
    have hi : i < kept := hlength ▸ (List.getElem?_eq_some_iff.mp hparameter).1
    have hname := congrArg (·[i]?) hparameterNames
    simp only [List.getElem?_map, hparameter, List.getElem?_take_of_lt hi, Option.map_some] at hname
    obtain ⟨property, hproperty, hsame⟩ := Option.map_eq_some_iff.mp hname.symm
    rw [hargument, hproperty, if_pos hi, ← hsame]
    rfl
  · intro i property hproperty hi
    rw [hlength] at hi
    obtain ⟨value, hvalue, hsome⟩ := omitted?_eq_some (homittedAt hproperty hi)
    refine ⟨value, hvalue, ?_⟩
    rw [hargument, hproperty, if_neg (Nat.not_lt.mpr hi), Option.map_some,
      leaveOut_eq_of_omitted? hsome]
  · intro i property hproperty hrequired
    have hi : i < kept := by
      by_contra hi
      rw [homittedAt hproperty (Nat.le_of_not_lt hi)] at hrequired
      cases hrequired
    rw [hargument, hproperty, if_pos hi]
    rfl
  · rw [harguments, filterMap_parameter?_passedOn homitted, hparameterNames]
  · rw [hparameterNames]
    exact hnames.sublist ((List.take_sublist _ _).map _)
  · rw [hargumentNames]
    exact hnames

end Kept

/-- The longest builder takes all properties. -/
theorem wired_baseline (name : String) (isRecord : Bool) {properties : List Property}
    (hnames : (properties.map (·.name)).Nodup) :
    Wired properties (baseline name isRecord properties) := by
  refine wired_of_kept (Nat.le_refl properties.length) ?_ ?_ ?_ hnames
  · rw [List.take_length, baseline, List.map_map]
    rfl
  · rw [passedOn, List.take_length, List.drop_length, List.map_nil, List.append_nil]
    rfl
  · simp

theorem length_parameters_shortened (name : String) {properties : List Property} {kept : Nat}
    (hkept : kept ≤ properties.length) :
    (shortened name properties kept).parameters.length = kept := by
  rw [shortened, List.length_map, List.length_take, Nat.min_eq_left hkept]

/-- A shorter builder takes the properties that it keeps. -/
theorem wired_shortened (name : String) {properties : List Property} {kept : Nat}
    (hkept : kept ≤ properties.length) (homitted : ∀ p ∈ properties.drop kept, p.isRequired = false)
    (hnames : (properties.map (·.name)).Nodup) :
    Wired properties (shortened name properties kept) := by
  refine wired_of_kept hkept ?_ rfl homitted hnames
  rw [shortened, List.map_map]
  rfl

/-- What a shorter builder leaves out are the defaults of the longest builder of a record. -/
theorem filledFrom_shortened (name : String) {properties : List Property} {kept : Nat}
    (hkept : kept ≤ properties.length)
    (homitted : ∀ p ∈ properties.drop kept, p.isRequired = false) :
    FilledFrom (baseline name true properties) (shortened name properties kept) := by
  have hlength := length_parameters_shortened name hkept
  have htake := length_map_forward hkept
  constructor
  · rw [hlength]
    change (passedOn properties kept).take kept = (properties.map forward).take kept
    rw [passedOn, List.take_left' htake, List.map_take]
  · rw [hlength]
    change ((passedOn properties kept).drop kept).map _ = _
    rw [passedOn, List.drop_left' htake, baseline, ← List.map_drop, List.map_map, List.map_map]
    refine List.map_congr_left fun p hp => ?_
    obtain ⟨value, -, hsome⟩ := omitted?_eq_some (homitted p hp)
    simp [leaveOut_eq_of_omitted? hsome, hsome]

/-! ### All builders of a tuple -/

/-- **Every builder of a tuple is wired correctly**, whether or not the shape of the tuple is
legal. -/
theorem exists_wiring_of_builders {tuple : Tuple} {result : List Builder}
    (hok : builders tuple = .ok result) :
    ∃ longest shorter, result = longest :: shorter ∧ Wiring tuple longest shorter := by
  obtain ⟨hdistinct, rfl⟩ := builders_eq_ok_iff.mp hok
  obtain ⟨front, run, rest, hsplit, hpositional, hrun, homittable⟩ :=
    exists_omittable_end tuple.properties
  let name := Name.camel tuple.tag
  -- A shorter builder keeps everything in front of the run.
  have hkept {i : Nat} (hi : i < run.length) :
      (positional tuple.properties).length - (i + 1) ≤ tuple.properties.length ∧
        ∀ p ∈ tuple.properties.drop ((positional tuple.properties).length - (i + 1)),
          p.isRequired = false := by
    rw [hpositional, List.length_append]
    refine ⟨by rw [hsplit]; simp only [List.length_append]; omega, fun p hp => ?_⟩
    rw [hsplit, Nat.add_sub_assoc (by omega), ← List.drop_drop, List.drop_left] at hp
    exact homittable p (List.mem_of_mem_drop hp)
  have hshorter {builder : Builder} (hbuilder : builder ∈ (List.range run.length).map fun i =>
      shortened name tuple.properties ((positional tuple.properties).length - (i + 1))) :
      ∃ i < run.length, builder =
        shortened name tuple.properties ((positional tuple.properties).length - (i + 1)) := by
    obtain ⟨i, hi, rfl⟩ := List.mem_map.mp hbuilder
    exact ⟨i, List.mem_range.mp hi, rfl⟩
  refine ⟨_, _, rfl, ?_, ?_, ?_, ?_, ?_⟩
  · rw [← hrun]
    intro builder hbuilder
    rcases List.mem_cons.mp hbuilder with rfl | hbuilder
    · exact wired_baseline _ _ hdistinct.names
    · obtain ⟨i, hi, rfl⟩ := hshorter hbuilder
      exact wired_shortened _ (hkept hi).1 (hkept hi).2 hdistinct.names
  · exact List.length_map _
  · rw [hpositional, hsplit, ← List.append_assoc]
    exact List.prefix_append _ _
  · intro i builder hbuilder
    rw [← hrun, List.getElem?_map, Option.map_eq_some_iff] at hbuilder
    obtain ⟨j, hj, rfl⟩ := hbuilder
    obtain ⟨hlt, hrange⟩ := List.getElem?_eq_some_iff.mp hj
    obtain rfl : i = j := by rwa [List.getElem_range] at hrange
    have hi : i < run.length := by rwa [List.length_range] at hlt
    rw [length_parameters_shortened _ (hkept hi).1, hpositional, List.length_append]
    omega
  · rw [← hrun]
    intro hrecord builder hbuilder
    obtain ⟨i, hi, rfl⟩ := hshorter hbuilder
    rw [hrecord]
    exact filledFrom_shortened _ (hkept hi).1 (hkept hi).2

/-- A record of no legal shape, with a variadic property in front of a required one, that has
builders all the same. -/
def scatteredTuple : Tuple :=
  { callTuple with
    properties := [plainProperty "heads" false true, plainProperty "callee" false false,
      plainProperty "label" true false, plainProperty "rest" true true] }

/-- A builder with all four parameters, and one that leaves out `label` and `rest`. -/
theorem exists_wiring_scatteredTuple :
    Shape.arity scatteredTuple.properties = .error (.variadicNotLast "heads") ∧
      builders scatteredTuple = .ok (overloads scatteredTuple) ∧
      ∃ longest shorter, overloads scatteredTuple = longest :: shorter ∧
        Wiring scatteredTuple longest shorter := by
  have harity : Shape.arity scatteredTuple.properties = .error (.variadicNotLast "heads") := rfl
  have hbuilders : builders scatteredTuple = .ok (overloads scatteredTuple) := rfl
  exact ⟨harity, hbuilders, exists_wiring_of_builders hbuilders⟩

end Overload

end DomainEvolution

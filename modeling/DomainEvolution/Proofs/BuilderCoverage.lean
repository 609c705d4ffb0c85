import DomainEvolution.Proofs.LegalShape
import DomainEvolution.Proofs.PropertyNames
import Mathlib.Data.List.Chain
import Mathlib.Data.List.Nodup

/-!
# Builders cover an arity

The builders of a tuple share the argument counts of its arity among them: each accepted count is
served by one builder, and no builder serves any other count. The arity is found by reading the
properties from the front and the builders by reading them from the back, so the two agree only
because the cardinalities of an accepted shape come in three runs.
-/

namespace DomainEvolution.Overload

/-- How builders serve the argument counts of the arity of some properties. -/
structure Covers (properties : List Property) (arity : Arity) (builders : List Builder) :
    Prop where
  served : ∀ count, arity.accepts count = true → builders.countP (·.arity.accepts count) = 1
  refused : ∀ count, arity.accepts count = false →
    ∀ builder ∈ builders, builder.arity.accepts count = false
  length : builders.length = properties.countP (fun p => p.isNullable && !p.isVariadic) + 1
  longest : ∀ builder ∈ builders.head?, builder.fixedCount =
    properties.countP (·.isRequired) + properties.countP (fun p => p.isNullable && !p.isVariadic)
  steps : builders.IsChain fun longer shorter => longer.fixedCount = shorter.fixedCount + 1
  shortest : ∀ builder ∈ builders.getLast?, builder.fixedCount = arity.min

/-! ### The counts that one builder serves -/

theorem fixedCount_baseline (name : String) (isRecord : Bool) (properties : List Property) :
    (baseline name isRecord properties).fixedCount = properties.countP (!·.isVariadic) := by
  rw [Builder.fixedCount, baseline, List.countP_map]
  rfl

theorem arity_baseline (name : String) (isRecord : Bool) (properties : List Property) :
    (baseline name isRecord properties).arity =
      if properties.any (·.isVariadic) then .atLeast (properties.countP (!·.isVariadic))
      else .exact (properties.countP (!·.isVariadic)) := by
  rw [Builder.arity, fixedCount_baseline, baseline, List.any_map]
  rfl

/-- No parameter of a shortened builder is repeated. -/
theorem isVariadic_of_mem_shortened {name : String} {properties : List Property} {kept : Nat}
    {parameter : Parameter} (h : parameter ∈ (shortened name properties kept).parameters) :
    parameter.isVariadic = false := by
  obtain ⟨property, _, rfl⟩ := List.mem_map.mp h
  rfl

theorem fixedCount_shortened (name : String) {properties : List Property} {kept : Nat}
    (hkept : kept ≤ properties.length) :
    (shortened name properties kept).fixedCount = kept := by
  have hall : (shortened name properties kept).fixedCount =
      (shortened name properties kept).parameters.length := by
    rw [Builder.fixedCount, List.countP_eq_length]
    intro parameter hparameter
    rw [isVariadic_of_mem_shortened hparameter, Bool.not_false]
  rw [hall, shortened, List.length_map, List.length_take, Nat.min_eq_left hkept]

theorem arity_shortened (name : String) {properties : List Property} {kept : Nat}
    (hkept : kept ≤ properties.length) :
    (shortened name properties kept).arity = .exact kept := by
  have hnone : ¬ (shortened name properties kept).parameters.any (·.isVariadic) = true := by
    rw [List.any_eq_true]
    rintro ⟨parameter, hparameter, hvariadic⟩
    rw [isVariadic_of_mem_shortened hparameter] at hvariadic
    cases hvariadic
  rw [Builder.arity, if_neg hnone, fixedCount_shortened name hkept]

theorem accepts_exact (fixed count : Nat) :
    (Arity.exact fixed).accepts count = (fixed == count) := by
  change (decide (fixed ≤ count) && decide (count ≤ fixed)) = (fixed == count)
  rw [Bool.eq_iff_iff, Bool.and_eq_true, decide_eq_true_eq, decide_eq_true_eq, beq_iff_eq]
  omega

/-! ### The builders of an accepted shape -/

section Parts

variable {properties required optional variadic : List Property}
  (h : Shape.Parts properties required optional variadic)
include h

/-- The positional properties are those that are not variadic. -/
theorem positional_eq_of_parts : positional properties = required ++ optional := by
  rcases h.variadic_eq with rfl | ⟨only, honly, rfl⟩
  · have hsplit : properties = required ++ optional := by rw [h.split, List.append_nil]
    unfold positional
    split
    · rename_i last hlast
      rw [h.isVariadic_getLast hlast]
      exact hsplit
    · exact hsplit
  · rw [positional, h.split, ← List.append_assoc, List.getLast?_concat]
    simp only [honly, if_true, List.dropLast_concat]

/-- The optional properties are those at the end of the positional ones. -/
theorem optionalRun_eq_of_parts : optionalRun (required ++ optional) = optional.length := by
  have hoptional : ∀ p ∈ optional.reverse, (p.isNullable && !p.isVariadic) = true := by
    intro p hp
    have hflags := Property.cardinality_eq_optional_iff.mp
      (h.all_optional p (List.mem_reverse.mp hp))
    simp [hflags]
  have hrequired : required.reverse.takeWhile (fun p => p.isNullable && !p.isVariadic) = [] := by
    cases hreverse : required.reverse with
    | nil => rfl
    | cons last before =>
      have hmem : last ∈ required := by
        rw [← List.mem_reverse, hreverse]
        exact List.mem_cons_self
      have hflags := Property.cardinality_eq_required_iff.mp (h.all_required last hmem)
      rw [List.takeWhile_cons_of_neg]
      simp [hflags]
  rw [optionalRun, List.reverse_append, List.takeWhile_append_of_pos hoptional, hrequired,
    List.append_nil, List.length_reverse]

end Parts

section Tuple

variable {tuple : Tuple} {required optional variadic : List Property}
  (h : Shape.Parts tuple.properties required optional variadic)
include h

/-- The shorter builders keep the required properties and some of the optional ones, but never
all. -/
theorem overloads_eq_of_parts : overloads tuple =
    baseline (Name.camel tuple.tag) tuple.isRecord tuple.properties ::
      (List.range' required.length optional.length).reverse.map
        (shortened (Name.camel tuple.tag) tuple.properties) := by
  rw [overloads, positional_eq_of_parts h, optionalRun_eq_of_parts h, List.reverse_range',
    List.map_map]
  refine congrArg _ (List.map_congr_left fun i _ => ?_)
  rw [Function.comp_apply, List.length_append, Nat.add_comm i 1, Nat.sub_sub]

/-- A number of properties that a shorter builder keeps is one that the tuple has. -/
theorem le_length_of_mem_range' {kept : Nat}
    (hkept : kept ∈ (List.range' required.length optional.length).reverse) :
    kept ≤ tuple.properties.length := by
  rw [List.mem_reverse, List.mem_range'_1] at hkept
  rw [h.split, List.length_append, List.length_append]
  omega

/-- The builders take one argument less from one to the next, down to the required ones. -/
theorem map_fixedCount_overloads : (overloads tuple).map (·.fixedCount) =
    (List.range' required.length (optional.length + 1)).reverse := by
  have hshorter : ((List.range' required.length optional.length).reverse.map
      (shortened (Name.camel tuple.tag) tuple.properties)).map (·.fixedCount) =
        (List.range' required.length optional.length).reverse := by
    rw [List.map_map]
    refine (List.map_congr_left fun kept hkept => ?_).trans (List.map_id _)
    exact fixedCount_shortened _ (le_length_of_mem_range' h hkept)
  rw [overloads_eq_of_parts h, List.map_cons, hshorter, fixedCount_baseline,
    h.countP_not_isVariadic, List.range'_1_concat, List.reverse_concat]

/-- The shorter builders serve the counts between their own ends, each once. -/
theorem countP_accepts_shortened (count : Nat) :
    ((List.range' required.length optional.length).reverse.map
      (shortened (Name.camel tuple.tag) tuple.properties)).countP (·.arity.accepts count) =
        if required.length ≤ count ∧ count < required.length + optional.length then 1 else 0 := by
  have haccepts : ∀ kept ∈ (List.range' required.length optional.length).reverse,
      ((shortened (Name.camel tuple.tag) tuple.properties kept).arity.accepts count = true ↔
        (kept == count) = true) := by
    intro kept hkept
    rw [arity_shortened _ (le_length_of_mem_range' h hkept), accepts_exact]
  have hnodup : (List.range' required.length optional.length).Nodup := List.nodup_range'
  rw [List.countP_map, Function.comp_def, List.countP_congr haccepts, List.countP_reverse]
  change (List.range' required.length optional.length).count count = _
  rw [hnodup.count]
  simp only [List.mem_range'_1]

/-- The first builder serves the counts from the end of the others up to the end of the arity. -/
theorem accepts_baseline_iff {name : String} {isRecord : Bool} {count : Nat} :
    (baseline name isRecord tuple.properties).arity.accepts count = true ↔
      required.length + optional.length ≤ count ∧
        (variadic.length = 0 → count ≤ required.length + optional.length) := by
  rw [arity_baseline, h.any_isVariadic, h.countP_not_isVariadic]
  by_cases hvariadic : variadic.length = 0
  · rw [if_neg (by simp [hvariadic]), accepts_exact, beq_iff_eq]
    omega
  · rw [if_pos (by simp [hvariadic])]
    simp only [hvariadic, false_implies, and_true]
    exact decide_eq_true_iff

/-- Each count of the arity is served once, and no other count is. -/
theorem countP_accepts_overloads (count : Nat) :
    (overloads tuple).countP (·.arity.accepts count) =
      if (Shape.arityOf required.length optional.length variadic.length).accepts count then 1
      else 0 := by
  rw [overloads_eq_of_parts h, List.countP_cons, countP_accepts_shortened h]
  simp only [accepts_baseline_iff h, Shape.accepts_arityOf_iff]
  by_cases hvariadic : variadic.length = 0
  · simp only [hvariadic, true_implies]
    split_ifs <;> omega
  · simp only [hvariadic, false_implies, and_true]
    split_ifs <;> omega

end Tuple

/-- **The builders of a tuple cover its arity.** -/
theorem covers_of_arity_of_builders {tuple : Tuple} {arity : Arity} {result : List Builder}
    (harity : Shape.arity tuple.properties = .ok arity)
    (hbuilders : builders tuple = .ok result) : Covers tuple.properties arity result := by
  obtain ⟨required, optional, variadic, h, rfl⟩ := Shape.exists_parts_of_arity_eq_ok harity
  obtain ⟨-, rfl⟩ := builders_eq_ok_iff.mp hbuilders
  have hcount := countP_accepts_overloads h
  have hfixed := map_fixedCount_overloads h
  refine ⟨?_, ?_, ?_, ?_, ?_, ?_⟩
  · intro count haccepts
    rw [hcount, if_pos haccepts]
  · intro count hrefuses builder hbuilder
    have hzero := hcount count
    rw [hrefuses, if_neg Bool.false_ne_true, List.countP_eq_zero] at hzero
    exact Bool.eq_false_iff.mpr (hzero builder hbuilder)
  · have hlength := congrArg List.length hfixed
    rw [List.length_map, List.length_reverse, List.length_range'] at hlength
    rw [hlength, h.countP_isOptional]
  · intro builder hbuilder
    rw [overloads_eq_of_parts h] at hbuilder
    cases hbuilder
    rw [fixedCount_baseline, h.countP_not_isVariadic, h.countP_isRequired,
      h.countP_isOptional]
  · have hsteps : ((overloads tuple).map (·.fixedCount)).IsChain fun m n => m = n + 1 := by
      rw [hfixed, List.isChain_reverse]
      exact List.isChain_range' _ _ 1
    exact (List.isChain_map _).mp hsteps
  · intro builder hbuilder
    have hlast : ((overloads tuple).map (·.fixedCount)).getLast? = some builder.fixedCount := by
      rw [List.getLast?_map, Option.mem_def.mp hbuilder]
      rfl
    rw [hfixed, List.getLast?_reverse, List.head?_range', if_neg (Nat.succ_ne_zero _)] at hlast
    exact (Option.some.inj hlast).symm

/-- A property whose tag is also its name. -/
def plainProperty (tag : String) (isNullable isVariadic : Bool) : Property where
  name := tag
  tag := tag
  typeName := "SymbolPrimitive"
  rawType := "symbol"
  typeRef := .primitive .symbol
  isVariadic := isVariadic
  isNullable := isNullable
  hook := ⟨"transformSymbolPrimitive", .required⟩

/-- A record with one required, two optional and one variadic property, and with neither its arity
nor its builders up to date. -/
def callTuple : Tuple where
  name := "Call"
  tag := "call"
  constructorName := "Toy.Call"
  baseType := "Toy"
  properties := [plainProperty "callee" false false, plainProperty "label" true false,
    plainProperty "hint" true false, plainProperty "args" false true]
  arity := .exact 0
  builders := []
  isRecord := true
  evolution := .inherited
  hasVariadic := false

/-- Builders with three fixed parameters and a repeated one, with two, and with one. -/
theorem covers_callTuple :
    Shape.arity callTuple.properties = .ok (.atLeast 1) ∧
      builders callTuple = .ok (overloads callTuple) ∧
      Covers callTuple.properties (.atLeast 1) (overloads callTuple) := by
  have harity : Shape.arity callTuple.properties = .ok (.atLeast 1) := rfl
  have hbuilders : builders callTuple = .ok (overloads callTuple) := rfl
  exact ⟨harity, hbuilders, covers_of_arity_of_builders harity hbuilders⟩

end DomainEvolution.Overload

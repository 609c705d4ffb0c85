import DomainEvolution.Proofs.BuilderCoverage
import DomainEvolution.Proofs.NameWords
import DomainEvolution.Proofs.TypeReferences

/-!
# Overload sets of one owner

Builders are told apart by name and number of arguments. The builders of one tuple share its camel
case and share out its argument counts; and since camel case determines Pascal case, tuples of one
owner that would share a builder name would share a constructor, which synthesis refuses. A call
inside an owner therefore never has two meanings.
-/

namespace DomainEvolution

namespace Overload

/-- Tuples whose builders do not mix: each tuple has builders, all of one name, which no other tuple
has, and no two builders of a name take the same number of arguments. -/
structure Unmixed (tuples : List Tuple) : Prop where
  shared : ∀ tuple ∈ tuples, tuple.builders ≠ [] ∧
    ∀ builder ∈ tuple.builders, builder.name = Name.camel tuple.tag
  apart : tuples.Pairwise fun tuple other =>
    ∀ builder ∈ tuple.builders, ∀ builder' ∈ other.builders, builder.name ≠ builder'.name
  unambiguous : ∀ name count, (tuples.flatMap (·.builders)).countP
    (fun builder => builder.name == name && builder.arity.accepts count) ≤ 1

/-! ### The builders of one tuple -/

/-- All builders of a tuple have the camel case of its tag. -/
theorem name_of_mem_overloads {tuple : Tuple} {builder : Builder}
    (h : builder ∈ overloads tuple) : builder.name = Name.camel tuple.tag := by
  rcases List.mem_cons.mp h with rfl | h
  · rfl
  · obtain ⟨_, _, rfl⟩ := List.mem_map.mp h
    rfl

section Derived

variable {tuple : Tuple} (h : tuple.Derived)
include h

theorem builders_eq_overloads : tuple.builders = overloads tuple :=
  (builders_eq_ok_iff.mp h.builders).2

/-- Of a call by the name of the tuple, one builder takes each number of arguments that the tuple
accepts; of any other call, none does. -/
theorem countP_builders (name : String) (count : Nat) :
    tuple.builders.countP (fun builder => builder.name == name && builder.arity.accepts count) =
      if Name.camel tuple.tag == name && tuple.arity.accepts count then 1 else 0 := by
  obtain ⟨required, optional, variadic, hparts, harity⟩ :=
    Shape.exists_parts_of_arity_eq_ok h.arity
  have hserved := countP_accepts_overloads hparts count
  rw [← harity] at hserved
  have hname : tuple.builders.countP
      (fun builder => builder.name == name && builder.arity.accepts count) =
        (overloads tuple).countP
          (fun builder => Name.camel tuple.tag == name && builder.arity.accepts count) := by
    rw [builders_eq_overloads h]
    refine List.countP_congr fun builder hbuilder => ?_
    rw [name_of_mem_overloads hbuilder]
  rw [hname]
  cases Name.camel tuple.tag == name with
  | true => simpa using hserved
  | false => simp

end Derived

/-! ### The builders of one owner -/

/-- A call inside an owner is served by as many builders as there are tuples that accept it. -/
theorem countP_flatMap_builders {tuples : List Tuple} (h : ∀ tuple ∈ tuples, tuple.Derived)
    (name : String) (count : Nat) :
    (tuples.flatMap (·.builders)).countP
        (fun builder => builder.name == name && builder.arity.accepts count) =
      tuples.countP fun tuple => Name.camel tuple.tag == name && tuple.arity.accepts count := by
  induction tuples with
  | nil => rfl
  | cons tuple rest ih =>
    obtain ⟨htuple, hrest⟩ := List.forall_mem_cons.mp h
    rw [List.flatMap_cons, List.countP_append, countP_builders htuple, ih hrest, List.countP_cons,
      Nat.add_comm]

/-- Where constructors are named after tags inside one owner and differ, the camel cases of tags
differ too. -/
theorem nodup_camel_of_nodup_constructorName {tuples : List Tuple} {owner : String}
    (hnodup : (tuples.map (·.constructorName)).Nodup)
    (hname : ∀ tuple ∈ tuples, tuple.constructorName =
      Name.qualify owner (Name.pascal tuple.tag)) :
    (tuples.map fun tuple => Name.camel tuple.tag).Nodup := by
  rw [List.nodup_map_iff_inj_on hnodup.of_map]
  intro tuple htuple other hother hcamel
  refine List.inj_on_of_nodup_map hnodup htuple hother ?_
  rw [hname tuple htuple, hname other hother, Name.pascal_eq_of_camel_eq hcamel]

/-- Up-to-date tuples of one owner that differ in the camel cases of their tags do not mix. -/
theorem unmixed_of_nodup_camel {tuples : List Tuple} (h : ∀ tuple ∈ tuples, tuple.Derived)
    (hnodup : (tuples.map fun tuple => Name.camel tuple.tag).Nodup) : Unmixed tuples := by
  have hshared {tuple : Tuple} (htuple : tuple ∈ tuples) {builder : Builder}
      (hbuilder : builder ∈ tuple.builders) : builder.name = Name.camel tuple.tag := by
    rw [builders_eq_overloads (h tuple htuple)] at hbuilder
    exact name_of_mem_overloads hbuilder
  refine ⟨fun tuple htuple => ⟨?_, fun builder => hshared htuple⟩, ?_, fun name count => ?_⟩
  · rw [builders_eq_overloads (h tuple htuple)]
    exact List.cons_ne_nil _ _
  · refine (List.pairwise_map.mp hnodup).imp_of_mem fun htuple hother hne => ?_
    intro builder hbuilder builder' hbuilder'
    rwa [hshared htuple hbuilder, hshared hother hbuilder']
  · -- The name alone leaves one tuple, and of its builders one takes each number of arguments.
    rw [countP_flatMap_builders h]
    calc tuples.countP (fun tuple => Name.camel tuple.tag == name && tuple.arity.accepts count)
        ≤ tuples.countP (fun tuple => Name.camel tuple.tag == name) := by
          refine List.countP_mono_left fun tuple _ haccepts => ?_
          exact (Bool.and_eq_true _ _ ▸ haccepts).1
      _ = (tuples.map fun tuple => Name.camel tuple.tag).count name := by
          rw [List.count, List.countP_map]
          rfl
      _ ≤ 1 := List.nodup_iff_count_le_one.mp hnodup name

end Overload

namespace Domain

section Synthesized

variable {decl : Decl.Domain} {domain : Domain} (hok : Domain.synthesize decl = .ok domain)
include hok

/-- Tuples of a synthesized domain that are named inside one owner do not mix. -/
theorem unmixed_of_sublist {tuples : List Tuple} (owner : String)
    (hsublist : tuples.Sublist domain.allTuples)
    (hname : ∀ tuple ∈ tuples, tuple.constructorName =
      Name.qualify owner (Name.pascal tuple.tag)) : Overload.Unmixed tuples := by
  have hderived : ∀ tuple ∈ tuples, tuple.Derived := fun tuple htuple =>
    (Synthesis.coherent_of_synthesize hok).derived tuple (hsublist.subset htuple)
  have hnodup : (tuples.map (·.constructorName)).Nodup :=
    (Synthesis.wellFormed_of_synthesize hok).constructors.sublist (hsublist.map _)
  exact Overload.unmixed_of_nodup_camel hderived
    (Overload.nodup_camel_of_nodup_constructorName hnodup hname)

/-- The tuples at the top of a synthesized domain do not mix. -/
theorem unmixed_tuples : Overload.Unmixed domain.tuples := by
  refine unmixed_of_sublist hok domain.name (List.sublist_append_left _ _) fun tuple htuple => ?_
  have hmember : Member.tuple tuple ∈ domain.members :=
    List.mem_append_left _ (List.mem_map_of_mem htuple)
  exact Synthesis.identifies_of_synthesize hok hmember

/-- The variants of a sum of a synthesized domain do not mix. -/
theorem unmixed_variants {sum : Sum} (hsum : sum ∈ domain.sums) :
    Overload.Unmixed sum.variants := by
  have hsublist : sum.variants.Sublist domain.allTuples := by
    rw [allTuples, List.flatMap_def]
    exact (List.sublist_flatten_of_mem (List.mem_map_of_mem hsum)).trans
      (List.sublist_append_right _ _)
  refine unmixed_of_sublist hok (Name.qualify domain.name (Name.pascal sum.tag)) hsublist
    fun v hv => ?_
  have hmember : Member.variant sum v ∈ domain.members :=
    List.mem_append_right _ (List.mem_flatMap.mpr
      ⟨sum, hsum, List.mem_cons_of_mem _ (List.mem_map_of_mem hv)⟩)
  exact (Synthesis.identifies_of_synthesize hok hmember).trans (Name.qualify_assoc _ _ _).symm

end Synthesized

/-- **The overload sets of one owner never mix**, neither those of the tuples at the top of a
synthesized domain nor those of the variants of one of its sums. -/
theorem unmixed_of_synthesize {decl : Decl.Domain} {domain : Domain}
    (hok : Domain.synthesize decl = .ok domain) :
    Overload.Unmixed domain.tuples ∧ ∀ sum ∈ domain.sums, Overload.Unmixed sum.variants :=
  ⟨unmixed_tuples hok, fun _ => unmixed_variants hok⟩

/-- A domain in which a tuple and a variant have builders of one name. -/
def sharedBuilderNames : Decl.Domain where
  tag := "toy"
  tuples := [⟨"call", .record, [⟨"callee", "int", .required⟩, ⟨"label", "symbol", .optional⟩,
    ⟨"args", "int", .variadic⟩]⟩, ⟨"calls", .product, []⟩]
  sums := [⟨"stmt", [⟨"_call", .product, [⟨"callee", "int", .required⟩]⟩,
    ⟨"call_all", .product, [⟨"callee", "int", .optional⟩]⟩]⟩]

theorem unmixed_of_synthesize_sharedBuilderNames : ∃ domain stmt,
    Domain.synthesize sharedBuilderNames = .ok domain ∧ domain.sums = [stmt] ∧
      domain.tuples.flatMap (·.builders.map (·.name)) = ["call", "call", "calls"] ∧
      stmt.variants.flatMap (·.builders.map (·.name)) = ["call", "callAll", "callAll"] ∧
      Overload.Unmixed domain.tuples ∧ Overload.Unmixed stmt.variants := by
  obtain ⟨domain, stmt, hok, hsums, hnames, hvariantNames⟩ : ∃ domain stmt,
      Domain.synthesize sharedBuilderNames = .ok domain ∧ domain.sums = [stmt] ∧
        domain.tuples.flatMap (·.builders.map (·.name)) = ["call", "call", "calls"] ∧
        stmt.variants.flatMap (·.builders.map (·.name)) = ["call", "callAll", "callAll"] :=
    ⟨_, _, rfl, rfl, rfl, rfl⟩
  obtain ⟨htuples, hvariants⟩ := unmixed_of_synthesize hok
  exact ⟨domain, stmt, hok, hsums, hnames, hvariantNames, htuples,
    hvariants stmt (by rw [hsums]; exact List.mem_singleton_self stmt)⟩

end Domain

end DomainEvolution

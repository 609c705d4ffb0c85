import DomainEvolution.Proofs.CompilationStages
import DomainEvolution.Proofs.DeclarationText
import DomainEvolution.Proofs.DifferenceMembers

/-!
# The text of a model

A model is read back from its text, in either layout and with any characters in its names. The only
condition is that its argument counts fit 64 bits; those of a compiled model do, since they count
declared properties.
-/

namespace DomainEvolution

open Json Json.Codec Json.Fields

/-! ### Sizes -/

/-- The upper end of a range fits 64 bits. -/
def MaxArity.Sized : MaxArity → Prop
  | .bounded count => count ≤ maxWord
  | .unbounded => True

/-- Both ends of a range fit 64 bits. -/
structure Arity.Sized (arity : Arity) : Prop where
  min : arity.min ≤ maxWord
  max : arity.max.Sized

/-- All argument counts of a domain fit 64 bits. -/
def Domain.Sized (domain : Domain) : Prop := ∀ tuple ∈ domain.allTuples, tuple.arity.Sized

/-- All argument counts of a model fit 64 bits. -/
structure Universe.Sized (model : Universe) : Prop where
  domains : ∀ domain ∈ model.domains, domain.Sized
  transforms : ∀ transform ∈ model.transforms, transform.difference.Sized

/-- No tuple is declared with more properties than 64 bits count. -/
def Decl.Universe.Sized (decl : Decl.Universe) : Prop :=
  ∀ domain ∈ decl.domains, ∀ tuple ∈ domain.allTuples, tuple.properties.length ≤ maxWord

/-! ### Models are read back -/

theorem maxArity_faithful {max : MaxArity} (h : max.Sized) : MaxArity.codec.Faithful max := by
  cases max with
  | bounded count => exact choice_holding_faithful rfl rfl (size_faithful h)
  | unbounded => exact choice_unit_faithful rfl rfl

theorem arity_faithful {arity : Arity} (h : arity.Sized) : Arity.codec.Faithful arity :=
  record_faithful
    (cons_faithful rfl (size_faithful h.min) <|
      cons_faithful rfl (maxArity_faithful h.max) nil_faithful) rfl

theorem argument_faithful (argument : Argument) : Argument.codec.Faithful argument := by
  cases argument with
  | parameter name => exact choice_holding_faithful rfl rfl (string_faithful name)
  | absent | empty => exact choice_unit_faithful rfl rfl

/-- No argument is written as `null`, so a default value can be told from none. -/
theorem not_shows_argument_null (argument : Argument) : ¬ Argument.codec.Shows argument .null := by
  cases argument <;> exact nofun

theorem defaultValue_faithful (value : Option Argument) :
    (Codec.option Argument.codec).Faithful value := by
  cases value with
  | none => exact option_none_faithful
  | some argument =>
    exact option_some_faithful (argument_faithful argument) (not_shows_argument_null argument)

theorem parameter_faithful (p : Parameter) : Parameter.codec.Faithful p :=
  record_faithful
    (cons_faithful rfl (string_faithful _) <|
      cons_faithful rfl (string_faithful _) <|
      cons_faithful rfl (defaultValue_faithful _) <|
      cons_faithful rfl (bool_faithful _) nil_faithful) rfl

theorem constructorArgument_faithful (a : ConstructorArgument) :
    ConstructorArgument.codec.Faithful a :=
  record_faithful
    (cons_faithful rfl (string_faithful _) <|
      cons_faithful rfl (argument_faithful _) nil_faithful) rfl

theorem builder_faithful (b : Builder) : Builder.codec.Faithful b :=
  record_faithful
    (cons_faithful rfl (string_faithful _) <|
      cons_faithful rfl (list_faithful fun p _ => parameter_faithful p) <|
      cons_faithful rfl (list_faithful fun a _ => constructorArgument_faithful a) nil_faithful) rfl

theorem primitive_faithful (type : Primitive) : Primitive.codec.Faithful type := by
  cases type <;> exact choice_unit_faithful rfl rfl

theorem typeRef_faithful (type : TypeRef) : TypeRef.codec.Faithful type := by
  cases type with
  | primitive type => exact choice_holding_faithful rfl rfl (primitive_faithful type)
  | domain name | opaqueType name => exact choice_holding_faithful rfl rfl (string_faithful name)

theorem hook_faithful (h : Hook) : Hook.codec.Faithful h :=
  record_faithful
    (cons_faithful rfl (string_faithful _) <|
      cons_faithful rfl (Decl.cardinality_faithful _) nil_faithful) rfl

theorem property_faithful (p : Property) : Property.codec.Faithful p :=
  record_faithful
    (cons_faithful rfl (string_faithful _) <|
      cons_faithful rfl (string_faithful _) <|
      cons_faithful rfl (string_faithful _) <|
      cons_faithful rfl (string_faithful _) <|
      cons_faithful rfl (typeRef_faithful _) <|
      cons_faithful rfl (bool_faithful _) <|
      cons_faithful rfl (bool_faithful _) <|
      cons_faithful rfl (hook_faithful _) nil_faithful) rfl

theorem evolution_faithful (e : Evolution) : Evolution.codec.Faithful e := by
  cases e <;> exact choice_unit_faithful rfl rfl

theorem tuple_faithful {t : Tuple} (h : t.arity.Sized) : Tuple.codec.Faithful t :=
  record_faithful
    (cons_faithful rfl (string_faithful _) <|
      cons_faithful rfl (string_faithful _) <|
      cons_faithful rfl (string_faithful _) <|
      cons_faithful rfl (string_faithful _) <|
      cons_faithful rfl (list_faithful fun p _ => property_faithful p) <|
      cons_faithful rfl (arity_faithful h) <|
      cons_faithful rfl (list_faithful fun b _ => builder_faithful b) <|
      cons_faithful rfl (bool_faithful _) <|
      cons_faithful rfl (evolution_faithful _) <|
      cons_faithful rfl (bool_faithful _) nil_faithful) rfl

theorem sum_faithful {s : Sum} (h : ∀ variant ∈ s.variants, variant.arity.Sized) :
    Sum.codec.Faithful s :=
  record_faithful
    (cons_faithful rfl (string_faithful _) <|
      cons_faithful rfl (string_faithful _) <|
      cons_faithful rfl (string_faithful _) <|
      cons_faithful rfl (list_faithful fun v hv => tuple_faithful (h v hv)) <|
      cons_faithful rfl (evolution_faithful _) nil_faithful) rfl

theorem domain_faithful {d : Domain} (h : d.Sized) : Domain.codec.Faithful d :=
  record_faithful
    (cons_faithful rfl (string_faithful _) <|
      cons_faithful rfl (string_faithful _) <|
      cons_faithful rfl (list_faithful fun t ht =>
        tuple_faithful (h t (List.mem_append_left _ ht))) <|
      cons_faithful rfl (list_faithful fun s hs => sum_faithful fun v hv =>
        h v (List.mem_append_right _ (List.mem_flatMap.mpr ⟨s, hs, hv⟩))) nil_faithful) rfl

theorem transform_faithful {t : Transform} (h : t.difference.Sized) : Transform.codec.Faithful t :=
  record_faithful
    (cons_faithful rfl (domain_faithful h) <|
      cons_faithful rfl (string_faithful _) <|
      cons_faithful rfl (string_faithful _) <|
      cons_faithful rfl (list_faithful fun tag _ => string_faithful tag) nil_faithful) rfl

theorem universe_faithful {model : Universe} (h : model.Sized) : Universe.codec.Faithful model :=
  record_faithful
    (cons_faithful rfl (list_faithful fun d hd => domain_faithful (h.domains d hd)) <|
      cons_faithful rfl (list_faithful fun t ht => transform_faithful (h.transforms t ht))
        nil_faithful) rfl

/-! ### Compiled models are sized -/

/-- The ends of an arity count properties. -/
theorem sized_of_arity_eq_ok {properties : List Property} {arity : Arity}
    (hok : Shape.arity properties = .ok arity) (hlength : properties.length ≤ maxWord) :
    arity.Sized := by
  obtain ⟨required, optional, variadic, -, hword, rfl⟩ := Shape.arity_eq_ok_iff.mp hok
  have hcount := congrArg List.length hword
  simp only [List.length_map, Shape.word, List.length_append, List.length_replicate] at hcount
  unfold Shape.arityOf
  constructor
  · show required ≤ maxWord
    omega
  · split_ifs
    · show required + optional ≤ maxWord
      omega
    · trivial

theorem sized_of_synthesize {decl : Decl.Domain} {domain : Domain}
    (hok : Domain.synthesize decl = .ok domain)
    (hlength : ∀ tuple ∈ decl.allTuples, tuple.properties.length ≤ maxWord) : domain.Sized := by
  intro tuple htuple
  obtain ⟨owner, source, hsource, h⟩ := Synthesis.exists_tuple_eq_ok_of_mem hok htuple
  obtain ⟨arity, builders, harity, -, rfl⟩ := Synthesis.Scope.tuple_eq_ok_iff.mp h
  exact sized_of_arity_eq_ok harity (by simpa using hlength source hsource)

theorem Universe.sized_of_compile {decl : Decl.Universe} {plan : Plan} {model : Universe}
    (hok : Universe.compile decl plan = .ok model) (hdecl : decl.Sized) : model.Sized := by
  obtain ⟨-, hmodels, htransforms⟩ := Compilation.compile_eq_ok_iff.mp hok
  have hdefines : ∀ {tag domain}, decl.Defines tag domain → domain.Sized := by
    rintro tag domain ⟨source, hsource, -, hok⟩
    exact sized_of_synthesize hok (hdecl source hsource)
  constructor
  · intro domain hdomain
    obtain ⟨source, hsource, hok⟩ := exists_of_mem_of_forall₂ hmodels hdomain
    exact hdefines ⟨source, hsource, rfl, hok⟩
  · intro transform htransform
    obtain ⟨request, -, source, destination, hsource, hdestination, hok⟩ :=
      exists_of_mem_of_forall₂ htransforms htransform
    obtain ⟨old, -, -, hold⟩ := hsource
    have hsized := hdefines hdestination
    obtain ⟨new, -, -, hnew⟩ := hdestination
    have htransform := Difference.isTransform_of_between
      (Synthesis.coherent_of_synthesize hold).tags (Synthesis.coherent_of_synthesize hnew) hok
    intro tuple htuple
    obtain ⟨kept, hkept, heq⟩ := htransform.emitted tuple htuple
    rw [heq]
    exact hsized kept hkept

/-! ### The output of a compilation -/

theorem compileText_eq_ok {decl : Decl.Universe} {plan : Plan} {model : Universe} {text : String}
    (hread : Decl.Universe.codec.readText text = .ok decl)
    (hok : Universe.compile decl plan = .ok model) (pretty : Bool) :
    Command.compileText plan pretty text =
      .ok (Universe.codec.writeText (Command.layout pretty) model ++ "\n") := by
  simp only [Command.compileText, hread, hok, bind, Except.bind, pure, Except.pure]

/-- Compact text has no line breaks. -/
theorem lineFeed_notMem_writeText {α : Type} (codec : Codec α) (a : α) :
    '\n' ∉ (codec.writeText .compact a).toList := by
  intro h
  rw [writeText, render, String.toList_ofList] at h
  exact List.not_mem_nil (mem_of_lineFeed_mem_write _ 0 h)

/-- A model is read back from what is written for it. A compilation writes a text of its model with
a line break behind it, and in the compact layout there is no other one. -/
theorem Universe.readText_written_and_compiled :
    (∀ (model : Universe), model.Sized → ∀ pretty,
      Universe.codec.readText (Universe.codec.writeText (Command.layout pretty) model) =
        .ok model) ∧
    ∀ (decl : Decl.Universe) (plan : Plan) (model : Universe), decl.Sized →
      Universe.compile decl plan = .ok model → ∀ text,
      Decl.Universe.codec.readText text = .ok decl → ∀ pretty, ∃ line,
        Command.compileText plan pretty text = .ok (line ++ "\n") ∧
        Universe.codec.readText (line ++ "\n") = .ok model ∧
        (pretty = false → '\n' ∉ line.toList) := by
  refine ⟨fun model h pretty => ?_, fun decl plan model hdecl hok text hread pretty => ?_⟩
  · exact (universe_faithful h).readText_writeText (Decl.blank_layout pretty)
  · have hmodel := universe_faithful (sized_of_compile hok hdecl)
    refine ⟨_, compileText_eq_ok hread hok pretty, ?_, ?_⟩
    · exact hmodel.readText_writeText_append (Decl.blank_layout pretty)
        (by simp [isBlank])
    · rintro rfl
      exact lineFeed_notMem_writeText _ model

/-- Two versions of a domain, with types whose names hold quotes, line breaks and other characters
that are escaped or stand for themselves. -/
def quotedTypes : Decl.Universe where
  domains :=
    [{ tag := "v1"
       tuples := [{ tag := "item", properties := [⟨"kind", "say \"a\"\n\x01", .optional⟩] }] },
      { tag := "v2"
        tuples := [{ tag := "item", properties := [⟨"kind", "ⅷ\\\t", .variadic⟩] }] }]
  requests := [⟨"v1", "v2"⟩]

theorem Universe.readText_written_and_compiled_quotedTypes : ∃ model,
    Universe.compile quotedTypes {} = .ok model ∧ ∀ pretty,
      Universe.codec.readText (Universe.codec.writeText (Command.layout pretty) model) =
        .ok model ∧
      ∃ line, Command.compileText {} pretty (Decl.Universe.codec.writeText .pretty quotedTypes) =
          .ok (line ++ "\n") ∧
        Universe.codec.readText (line ++ "\n") = .ok model ∧
        (pretty = false → '\n' ∉ line.toList) := by
  obtain ⟨model, hok⟩ : ∃ model, Universe.compile quotedTypes {} = .ok model := by
    have hacyclic : Lineage.checkAcyclic quotedTypes.requests = .ok () := by cbv
    rw [Universe.compile, hacyclic]
    exact ⟨_, rfl⟩
  have hsized : quotedTypes.Sized := by
    simp [Decl.Universe.Sized, quotedTypes, Decl.Domain.allTuples, maxWord]
  have hread := (Decl.universe_faithful quotedTypes).readText_writeText Layout.blank_pretty
  obtain ⟨hwritten, hcompiled⟩ := Universe.readText_written_and_compiled
  exact ⟨model, hok, fun pretty => ⟨hwritten model (sized_of_compile hok hsized) pretty,
    hcompiled quotedTypes {} model hsized hok _ hread pretty⟩⟩

end DomainEvolution

import DomainEvolution.Command.Run
import DomainEvolution.Proofs.FaithfulCodec
import DomainEvolution.Proofs.RewrittenJson

/-!
# The texts of a declaration

A declaration may be written down in many ways: fields with their usual values may be left out,
members may come in any order, and unknown members may stand between them, in every object
independently. All these texts are read as the same declaration, so a compilation cannot tell them
apart.
-/

namespace DomainEvolution

open Json Json.Codec Json.Fields

namespace Decl

/-- The members that the objects of a declaration may leave out: those with usual values. -/
def usualMembers : List (String × Json) :=
  [("transforms", .array []), ("tuples", .array []), ("sums", .array []),
    ("kind", .string "product"), ("properties", .array []), ("cardinality", .string "required")]

/-! ### Declarations are read back -/

theorem cardinality_faithful (c : Cardinality) : Cardinality.codec.Faithful c := by
  cases c <;> exact choice_unit_faithful rfl rfl

theorem tupleKind_faithful (kind : TupleKind) : TupleKind.codec.Faithful kind := by
  cases kind <;> exact choice_unit_faithful rfl rfl

theorem property_faithful (p : Property) : Property.codec.Faithful p :=
  record_faithful
    (cons_faithful rfl (string_faithful _) <|
      cons_faithful rfl (string_faithful _) <|
      cons_faithful rfl (cardinality_faithful _) nil_faithful) rfl

theorem tuple_faithful (t : Tuple) : Tuple.codec.Faithful t :=
  record_faithful
    (cons_faithful rfl (string_faithful _) <|
      cons_faithful rfl (tupleKind_faithful _) <|
      cons_faithful rfl (list_faithful fun p _ => property_faithful p) nil_faithful) rfl

theorem sum_faithful (s : Sum) : Sum.codec.Faithful s :=
  record_faithful
    (cons_faithful rfl (string_faithful _) <|
      cons_faithful rfl (list_faithful fun t _ => tuple_faithful t) nil_faithful) rfl

theorem domain_faithful (d : Domain) : Domain.codec.Faithful d :=
  record_faithful
    (cons_faithful rfl (string_faithful _) <|
      cons_faithful rfl (list_faithful fun t _ => tuple_faithful t) <|
      cons_faithful rfl (list_faithful fun s _ => sum_faithful s) nil_faithful) rfl

theorem request_faithful (r : Request) : Request.codec.Faithful r :=
  record_faithful
    (cons_faithful rfl (string_faithful _) <|
      cons_faithful rfl (string_faithful _) nil_faithful) rfl

theorem universe_faithful (u : Universe) : Universe.codec.Faithful u :=
  record_faithful
    (cons_faithful rfl (list_faithful fun d _ => domain_faithful d) <|
      cons_faithful rfl (list_faithful fun r _ => request_faithful r) nil_faithful) rfl

/-! ### Declarations may be rewritten -/

theorem cardinality_tolerates (c : Cardinality) : Cardinality.codec.Tolerates usualMembers c := by
  cases c <;> exact choice_unit_tolerates rfl

theorem tupleKind_tolerates (kind : TupleKind) : TupleKind.codec.Tolerates usualMembers kind := by
  cases kind <;> exact choice_unit_tolerates rfl

theorem eq_required_of_mem_usualMembers {c : Cardinality}
    (h : ("cardinality", Cardinality.codec.write c) ∈ usualMembers) : c = .required := by
  cases c with
  | required => rfl
  | optional | variadic => simp [usualMembers, Cardinality.codec, choice] at h

theorem eq_product_of_mem_usualMembers {kind : TupleKind}
    (h : ("kind", TupleKind.codec.write kind) ∈ usualMembers) : kind = .product := by
  cases kind with
  | product => rfl
  | record => simp [usualMembers, TupleKind.codec, choice] at h

/-- No list is usual but the empty one. -/
theorem eq_nil_of_mem_usualMembers {α : Type} {codec : Codec α} {items : List α} {name : String}
    (h : (name, (Codec.list codec).write items) ∈ usualMembers) : items = [] := by
  simp only [usualMembers, list, List.mem_cons, Prod.mk.injEq, Json.array.injEq,
    List.map_eq_nil_iff, reduceCtorEq, List.not_mem_nil] at h
  tauto

theorem property_tolerates (p : Property) : Property.codec.Tolerates usualMembers p := by
  refine record_tolerates <|
    cons_tolerates (string_tolerates _) ?_ ?_ <|
    cons_tolerates (string_tolerates _) ?_ ?_ <|
    cons_tolerates (cardinality_tolerates _) ?_
      (fun h => congrArg some (eq_required_of_mem_usualMembers h).symm) nil_tolerates
  all_goals simp [Fields.cons, Fields.nil, usualMembers]

theorem tuple_tolerates (t : Tuple) : Tuple.codec.Tolerates usualMembers t := by
  refine record_tolerates <|
    cons_tolerates (string_tolerates _) ?_ ?_ <|
    cons_tolerates (tupleKind_tolerates _) ?_
      (fun h => congrArg some (eq_product_of_mem_usualMembers h).symm) <|
    cons_tolerates (list_tolerates fun p _ => property_tolerates p) ?_
      (fun h => congrArg some (eq_nil_of_mem_usualMembers h).symm) nil_tolerates
  all_goals simp [Fields.cons, Fields.nil, usualMembers]

theorem sum_tolerates (s : Sum) : Sum.codec.Tolerates usualMembers s := by
  refine record_tolerates <|
    cons_tolerates (string_tolerates _) ?_ ?_ <|
    cons_tolerates (list_tolerates fun t _ => tuple_tolerates t) ?_ ?_ nil_tolerates
  all_goals simp [Fields.cons, Fields.nil, usualMembers]

theorem domain_tolerates (d : Domain) : Domain.codec.Tolerates usualMembers d := by
  refine record_tolerates <|
    cons_tolerates (string_tolerates _) ?_ ?_ <|
    cons_tolerates (list_tolerates fun t _ => tuple_tolerates t) ?_
      (fun h => congrArg some (eq_nil_of_mem_usualMembers h).symm) <|
    cons_tolerates (list_tolerates fun s _ => sum_tolerates s) ?_
      (fun h => congrArg some (eq_nil_of_mem_usualMembers h).symm) nil_tolerates
  all_goals simp [Fields.cons, Fields.nil, usualMembers]

theorem request_tolerates (r : Request) : Request.codec.Tolerates usualMembers r := by
  refine record_tolerates <|
    cons_tolerates (string_tolerates _) ?_ ?_ <|
    cons_tolerates (string_tolerates _) ?_ ?_ nil_tolerates
  all_goals simp [Fields.cons, Fields.nil, usualMembers]

theorem universe_tolerates (u : Universe) : Universe.codec.Tolerates usualMembers u := by
  refine record_tolerates <|
    cons_tolerates (list_tolerates fun d _ => domain_tolerates d) ?_ ?_ <|
    cons_tolerates (list_tolerates fun r _ => request_tolerates r) ?_
      (fun h => congrArg some (eq_nil_of_mem_usualMembers h).symm) nil_tolerates
  all_goals simp [Fields.cons, Fields.nil, usualMembers]

/-! ### All texts of a declaration -/

/-- A text of a declaration spells what is written for it, rewritten in any way. Nothing but blanks
comes behind it. -/
def Universe.WrittenAs (u : Universe) (text : String) : Prop :=
  ∃ value rest, Rewritten usualMembers (Universe.codec.write u) value ∧
    Spelled value text.toList rest ∧ skipBlanks rest = []

theorem Universe.writtenAs_render {u : Universe} {value : Json} {layout : Layout}
    (h : Rewritten usualMembers (Universe.codec.write u) value) (hlayout : layout.Blank) :
    u.WrittenAs (render layout value) := by
  refine ⟨value, [], h, ?_, rfl⟩
  rw [render, String.toList_ofList]
  exact spelled_write hlayout value 0 endsNumber_nil

theorem Universe.WrittenAs.readText {u : Universe} {text : String} (h : u.WrittenAs text) :
    Universe.codec.readText text = .ok u := by
  obtain ⟨value, rest, hvalue, hspelled, hrest⟩ := h
  exact (universe_faithful u).readText_spelled (universe_tolerates u value hvalue) hspelled hrest

theorem blank_layout (pretty : Bool) : (Command.layout pretty).Blank := by
  cases pretty with
  | false => exact Layout.blank_compact
  | true => exact Layout.blank_pretty

/-- A declaration is read from each of its texts, among them those that leave nothing out, and a
compilation gives the same output or the same error on all of them. -/
theorem Universe.compileText_of_writtenAs (u : Universe) :
    (∀ pretty, u.WrittenAs (Universe.codec.writeText (Command.layout pretty) u)) ∧
    (∀ text, u.WrittenAs text → Universe.codec.readText text = .ok u) ∧
    ∀ text other, u.WrittenAs text → u.WrittenAs other → ∀ plan pretty,
      Command.compileText plan pretty text = Command.compileText plan pretty other := by
  refine ⟨fun pretty => ?_, fun text h => h.readText, fun text other h hother plan pretty => ?_⟩
  · exact writtenAs_render (.same _) (blank_layout pretty)
  · simp only [Command.compileText, h.readText, hother.readText]

/-- A declaration in which almost everything is usual. -/
def loans : Universe where
  domains :=
    [{ tag := "lending"
       tuples := [{ tag := "loan", properties := [{ tag := "copy", typeName := "int" }] }] }]

/-- The declaration without what is usual, with its members in another order and a remark. -/
def shortLoans : Json :=
  .object
    [("remark", .object [("shelf", .nat 7), ("seen", .array [.null, .bool true])]),
      ("domains",
        .array
          [.object
            [("tuples",
                .array
                  [.object
                    [("properties",
                        .array [.object [("type_name", .string "int"), ("tag", .string "copy")]]),
                      ("tag", .string "loan")]]),
              ("tag", .string "lending")]])]

theorem rewritten_shortLoans :
    Rewritten usualMembers (Universe.codec.write loans) shortLoans := by
  have hproperty : Rewritten usualMembers
      (Property.codec.write { tag := "copy", typeName := "int" })
      (.object [("type_name", .string "int"), ("tag", .string "copy")]) :=
    .object (.kept (.same _) <| .kept (.same _) <|
      .leftOut (by simp [usualMembers, Cardinality.codec, choice]) .nil) (by simp) (.swap ..)
  have htuple : Rewritten usualMembers
      (Tuple.codec.write { tag := "loan", properties := [{ tag := "copy", typeName := "int" }] })
      (.object
        [("properties", .array [.object [("type_name", .string "int"), ("tag", .string "copy")]]),
          ("tag", .string "loan")]) :=
    .object (.kept (.same _) <|
      .leftOut (by simp [usualMembers, TupleKind.codec, choice]) <|
      .kept (.array (.cons hproperty .nil)) .nil) (by simp) (.swap ..)
  refine .object (.kept (.array (.cons ?_ .nil)) <|
    .leftOut (by simp [usualMembers, list, loans]) .nil) ?_ (.swap ..)
  · exact .object (.kept (.same _) <| .kept (.array (.cons htuple .nil)) <|
      .leftOut (by simp [usualMembers, list]) .nil) (by simp) (.swap ..)
  · simp [Fields.cons, Fields.nil]

theorem Universe.compileText_of_writtenAs_shortLoans :
    loans.WrittenAs (render .pretty shortLoans) ∧
    Universe.codec.readText (render .pretty shortLoans) = .ok loans ∧
    ∀ plan pretty, Command.compileText plan pretty (render .pretty shortLoans) =
      Command.compileText plan pretty (Universe.codec.writeText .compact loans) := by
  have hshort := Universe.writtenAs_render rewritten_shortLoans Layout.blank_pretty
  obtain ⟨hplain, hread, hcompile⟩ := Universe.compileText_of_writtenAs loans
  exact ⟨hshort, hread _ hshort, hcompile _ _ hshort (hplain false)⟩

end Decl

end DomainEvolution

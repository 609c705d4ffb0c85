import DomainEvolution.Synthesis
import DomainEvolution.Proofs.PropertyNames

/-!
# The stages of synthesis

Each function of the synthesis is described once, by what it succeeds with and by what it fails
with. What a declaration becomes is a function of the declaration and its scope; only the arities
and the builders of its tuples can be missing.
-/

namespace DomainEvolution.Synthesis

/-- A computation for a member succeeds with its own value. -/
theorem atMember_eq_ok_iff {α : Type} {domain member : String} {x : Except ShapeError α} {a : α} :
    atMember domain member x = .ok a ↔ x = .ok a := by
  cases x <;> simp [atMember]

/-- A computation for a member fails with its own reason, under the names of domain and member. -/
theorem atMember_eq_error_iff {α : Type} {domain member : String} {x : Except ShapeError α}
    {e : CompileError} :
    atMember domain member x = .error e ↔
      ∃ reason, x = .error reason ∧ e = .invalidShape domain member reason := by
  cases x <;> simp [atMember, eq_comm]

/-- The members of a domain pass the check exactly when they are distinct. -/
theorem checkMembers_eq_ok_iff (domain : String) {members : List Member} :
    checkMembers domain members = .ok () ↔ Clash.Distinct Member.tag Member.name members := by
  rw [← Clash.find?_eq_none_iff]
  unfold checkMembers
  split <;> simp_all

namespace Scope

variable {scope : Scope}

@[simp] theorem property_tag (decl : Decl.Property) : (scope.property decl).tag = decl.tag := rfl

@[simp] theorem property_name (decl : Decl.Property) :
    (scope.property decl).name = Name.camel decl.tag := rfl

/-- The flags of a property stand for the cardinality that was declared. -/
@[simp] theorem property_cardinality (decl : Decl.Property) :
    (scope.property decl).cardinality = decl.cardinality := by
  change (if (decl.cardinality == .variadic) = true then Cardinality.variadic
    else if (decl.cardinality == .optional) = true then .optional else .required) = _
  cases decl.cardinality <;> rfl

/-- What a declared tuple becomes, given its arity and its builders. -/
def completed (scope : Scope) (owner : String) (decl : Decl.Tuple) (arity : Arity)
    (builders : List Builder) : Tuple where
  name := Name.pascal decl.tag
  tag := decl.tag
  constructorName := Name.qualify owner (Name.pascal decl.tag)
  baseType := owner
  properties := decl.properties.map scope.property
  arity := arity
  builders := builders
  isRecord := decl.kind == .record
  evolution := .inherited
  hasVariadic := (decl.properties.map scope.property).any (·.isVariadic)

/-- A tuple is synthesized exactly when its shape and its names are accepted. -/
theorem tuple_eq_ok_iff {owner : String} {decl : Decl.Tuple} {tuple : Tuple} :
    scope.tuple owner decl = .ok tuple ↔
      ∃ arity builders, Shape.arity (decl.properties.map scope.property) = .ok arity ∧
        Overload.builders tuple = .ok builders ∧
        tuple = scope.completed owner decl arity builders := by
  simp only [Scope.tuple, bind_eq_ok_iff]
  constructor
  · rintro ⟨arity, harity, builders, hbuilders, h⟩
    cases h
    exact ⟨arity, builders, harity, hbuilders, rfl⟩
  · rintro ⟨arity, builders, harity, hbuilders, rfl⟩
    exact ⟨arity, harity, builders, hbuilders, rfl⟩

/-- A tuple is refused for its shape, or else for its names. -/
theorem tuple_eq_error_iff {owner : String} {decl : Decl.Tuple} {reason : ShapeError} :
    scope.tuple owner decl = .error reason ↔
      Shape.arity (decl.properties.map scope.property) = .error reason ∨
        ∃ arity, Shape.arity (decl.properties.map scope.property) = .ok arity ∧
          Overload.checkNames (decl.properties.map scope.property) = .error reason := by
  simp only [Scope.tuple, bind_eq_error_iff, Overload.builders_eq_error_iff]
  constructor
  · rintro (h | ⟨arity, harity, h | ⟨_, _, h⟩⟩)
    · exact Or.inl h
    · exact Or.inr ⟨arity, harity, h⟩
    · cases h
  · rintro (h | ⟨arity, harity, h⟩)
    · exact Or.inl h
    · exact Or.inr ⟨arity, harity, Or.inl h⟩

/-- The name that owns the variants of a declared sum. -/
def sumOwner (scope : Scope) (decl : Decl.Sum) : String :=
  Name.qualify scope.domainName (Name.pascal decl.tag)

/-- The synthesis of one variant of a declared sum. -/
def variant (scope : Scope) (domain : String) (decl : Decl.Sum) (variant : Decl.Tuple) :
    Except CompileError Tuple :=
  atMember domain (variantMember decl.tag variant.tag) (scope.tuple (scope.sumOwner decl) variant)

/-- What a declared sum becomes, given its variants. -/
def completedSum (scope : Scope) (decl : Decl.Sum) (variants : List Tuple) : Sum where
  name := Name.pascal decl.tag
  tag := decl.tag
  baseType := scope.domainName
  variants := variants
  evolution := .inherited

/-- A sum is synthesized exactly when it has variants and all of them are synthesized. -/
theorem sum_eq_ok_iff {domain : String} {decl : Decl.Sum} {sum : Sum} :
    scope.sum domain decl = .ok sum ↔
      decl.variants ≠ [] ∧ ∃ variants,
        decl.variants.mapM (scope.variant domain decl) = .ok variants ∧
        sum = scope.completedSum decl variants := by
  unfold Scope.sum
  cases hvariants : decl.variants with
  | nil => simp [throw, throwThe, MonadExceptOf.throw, bind, Except.bind]
  | cons first rest =>
    simp only [List.isEmpty_cons, Bool.false_eq_true, if_false, ne_eq, reduceCtorEq,
      not_false_eq_true, true_and]
    change (List.mapM (scope.variant domain decl) (first :: rest) >>= fun variants =>
      Except.ok (scope.completedSum decl variants)) = .ok sum ↔ _
    rw [bind_eq_ok_iff]
    simp only [Except.ok.injEq, eq_comm]

/-- A sum is refused for having no variants, or else for one of them. -/
theorem sum_eq_error_iff {domain : String} {decl : Decl.Sum} {e : CompileError} :
    scope.sum domain decl = .error e ↔
      (decl.variants = [] ∧ e = .invalidShape domain decl.tag .emptySum) ∨
        decl.variants.mapM (scope.variant domain decl) = .error e := by
  unfold Scope.sum
  cases hvariants : decl.variants with
  | nil =>
    simp [throw, throwThe, MonadExceptOf.throw, bind, Except.bind, pure, Except.pure, eq_comm]
  | cons first rest =>
    simp only [List.isEmpty_cons, Bool.false_eq_true, if_false, reduceCtorEq, false_and, false_or]
    change (List.mapM (scope.variant domain decl) (first :: rest) >>= fun variants =>
      Except.ok (scope.completedSum decl variants)) = .error e ↔ _
    rw [bind_eq_error_iff]
    simp

end Scope

/-- The scope of a declared domain. -/
def scopeOf (decl : Decl.Domain) : Scope :=
  ⟨Name.pascal decl.tag, membersOf (Name.pascal decl.tag) decl⟩

/-- The synthesis of one tuple at the top of a declared domain. -/
def topTuple (decl : Decl.Domain) (tuple : Decl.Tuple) : Except CompileError Tuple :=
  atMember decl.tag tuple.tag ((scopeOf decl).tuple (Name.pascal decl.tag) tuple)

/-- A domain is synthesized exactly when its members are distinct and each is synthesized. -/
theorem synthesize_eq_ok_iff {decl : Decl.Domain} {domain : Domain} :
    Domain.synthesize decl = .ok domain ↔
      Clash.Distinct Member.tag Member.name (scopeOf decl).members ∧
        ∃ tuples sums, decl.tuples.mapM (topTuple decl) = .ok tuples ∧
          decl.sums.mapM ((scopeOf decl).sum decl.tag) = .ok sums ∧
          domain = ⟨Name.pascal decl.tag, decl.tag, tuples, sums⟩ := by
  rw [← checkMembers_eq_ok_iff decl.tag]
  simp only [Domain.synthesize, bind_eq_ok_iff]
  constructor
  · rintro ⟨_, hmembers, tuples, htuples, sums, hsums, h⟩
    cases h
    exact ⟨hmembers, tuples, sums, htuples, hsums, rfl⟩
  · rintro ⟨hmembers, tuples, sums, htuples, hsums, rfl⟩
    exact ⟨(), hmembers, tuples, htuples, sums, hsums, rfl⟩

/-- A domain is refused for a clash of members, or else for a tuple, or else for a sum. -/
theorem synthesize_eq_error_iff {decl : Decl.Domain} {e : CompileError} :
    Domain.synthesize decl = .error e ↔
      checkMembers decl.tag (scopeOf decl).members = .error e ∨
        Clash.Distinct Member.tag Member.name (scopeOf decl).members ∧
          (decl.tuples.mapM (topTuple decl) = .error e ∨
            ∃ tuples, decl.tuples.mapM (topTuple decl) = .ok tuples ∧
              decl.sums.mapM ((scopeOf decl).sum decl.tag) = .error e) := by
  rw [← checkMembers_eq_ok_iff decl.tag]
  simp only [Domain.synthesize, bind_eq_error_iff]
  constructor
  · rintro (h | ⟨_, hmembers, h | ⟨tuples, htuples, h | ⟨_, _, h⟩⟩⟩)
    · exact Or.inl h
    · exact Or.inr ⟨hmembers, Or.inl h⟩
    · exact Or.inr ⟨hmembers, Or.inr ⟨tuples, htuples, h⟩⟩
    · cases h
  · rintro (h | ⟨hmembers, h | ⟨tuples, htuples, h⟩⟩)
    · exact Or.inl h
    · exact Or.inr ⟨(), hmembers, Or.inl h⟩
    · exact Or.inr ⟨(), hmembers, Or.inr ⟨tuples, htuples, Or.inl h⟩⟩

end DomainEvolution.Synthesis

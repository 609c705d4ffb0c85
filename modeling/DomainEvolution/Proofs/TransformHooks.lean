import DomainEvolution.Proofs.NameWords
import DomainEvolution.Proofs.TypeReferences

/-!
# Transform hooks

The hook of a property is named after its type: a primitive type by its generated name, a member by
the names that lead to it inside the domain, run together without dots. Generated names are kept
apart with their dots, so that two types can meet in a hook: a variant is known there as a tuple
would be whose tag joins the tag of the sum and that of the variant. Types that stand side by side
under names without dots do not meet.
-/

namespace DomainEvolution

namespace Name

/-- A name without its dots. -/
def undotted (name : String) : String := String.ofList (name.toList.filter (· != '.'))

theorem undotted_append (first second : String) :
    undotted (first ++ second) = undotted first ++ undotted second := by
  simp [undotted, String.ofList_append]

theorem undotted_qualify (owner name : String) :
    undotted (qualify owner name) = undotted owner ++ undotted name := by
  have hdot : undotted "." = "" := by decide
  rw [qualify, undotted_append, undotted_append, hdot, String.append_empty]

theorem undotted_of_notMem {name : String} (h : '.' ∉ name.toList) : undotted name = name := by
  have hkeep : name.toList.filter (· != '.') = name.toList := by
    rw [List.filter_eq_self]
    intro c hc
    rw [bne_iff_ne]
    rintro rfl
    exact h hc
  rw [undotted, hkeep, String.ofList_toList]

end Name

namespace Place

/-- The tags that lead to a place inside its domain, joined to one. -/
def path : Place → String
  | tuple tag => tag
  | sum tag => tag
  | variant owner tag => owner ++ "_" ++ tag

/-- The name under which hooks know the member at a place: what its path generates, without dots. -/
def hookName (place : Place) : String := Name.undotted (Name.pascal place.path)

/-- The sum of which the member is a variant, if it is one. -/
def owner? : Place → Option String
  | tuple _ => none
  | sum _ => none
  | variant owner _ => some owner

/-- Hooks know a member by its name inside the domain, without dots. -/
theorem undotted_localName (place : Place) : Name.undotted place.localName = place.hookName := by
  cases place with
  | tuple tag => rfl
  | sum tag => rfl
  | variant owner tag =>
    rw [localName, hookName, path, Name.undotted_qualify, Name.pascal_append, Name.undotted_append]

theorem localName_eq (place : Place) : place.localName =
    place.owner?.elim (Name.pascal place.tag) fun owner =>
      Name.qualify (Name.pascal owner) (Name.pascal place.tag) := by
  cases place <;> rfl

theorem hookName_eq_append (place : Place) : place.hookName =
    (place.owner?.elim "" fun owner => Name.undotted (Name.pascal owner)) ++
      Name.undotted (Name.pascal place.tag) := by
  cases place with
  | tuple tag => exact String.empty_append.symm
  | sum tag => exact String.empty_append.symm
  | variant owner tag =>
    rw [hookName, path, Name.pascal_append, Name.undotted_append]
    rfl

/-- Members of one owner whose names have no dots share a hook only if they share their name. -/
theorem localName_eq_of_hookName_eq {place other : Place} (howner : place.owner? = other.owner?)
    (hdots : '.' ∉ (Name.pascal place.tag).toList) (hdots' : '.' ∉ (Name.pascal other.tag).toList)
    (h : place.hookName = other.hookName) : place.localName = other.localName := by
  rw [hookName_eq_append, hookName_eq_append, howner] at h
  have htag := (String.append_right_inj _).mp h
  rw [Name.undotted_of_notMem hdots, Name.undotted_of_notMem hdots'] at htag
  rw [localName_eq, localName_eq, howner, htag]

end Place

/-- Whether a domain says itself what the type is. -/
def TypeRef.IsKnown : TypeRef → Prop
  | primitive _ => True
  | domain _ => True
  | opaqueType _ => False

theorem Primitive.generatedName_injective : Function.Injective generatedName := by
  intro first second
  cases first <;> cases second <;> decide

namespace Domain

/-- What is known of a type is that it is primitive or a member of the domain. -/
theorem Means.exists_of_isKnown {domain : Domain} {rawType name : String} {ref : TypeRef}
    (h : domain.Means rawType ref name) (hknown : ref.IsKnown) :
    (∃ type : Primitive, ref = .primitive type ∧ name = type.generatedName) ∨
      ∃ place ∈ domain.places, ref = .domain place.tag ∧
        name = Name.qualify domain.name place.localName := by
  cases h with
  | primitive type => exact Or.inl ⟨type, rfl, rfl⟩
  | @member place _ hplace => exact Or.inr ⟨place, hplace, rfl, rfl⟩
  | opaqueType => exact hknown.elim

/-- The properties of all tuples and variants. -/
def properties (domain : Domain) : List Property := domain.allTuples.flatMap (·.properties)

/-- The name under which hooks know a type of the domain. -/
def hookName? (domain : Domain) : TypeRef → Option String
  | .primitive type => some type.generatedName
  | .domain tag => (domain.places.find? (·.tag == tag)).map (·.hookName)
  | .opaqueType _ => none

/-- The types that a domain knows: the primitive ones and its members. -/
def types (domain : Domain) : List TypeRef :=
  Primitive.all.map .primitive ++ domain.places.map fun place => .domain place.tag

/-- No two types that properties refer to share a hook. -/
def HooksPerType (domain : Domain) : Prop :=
  ∀ p ∈ domain.properties, ∀ q ∈ domain.properties, p.typeRef.IsKnown → q.typeRef.IsKnown →
    p.typeRef ≠ q.typeRef → p.hook.method ≠ q.hook.method

/-- Types that stand side by side: both primitive, or members of one owner whose names have no
dots. -/
inductive Beside (domain : Domain) : TypeRef → TypeRef → Prop
  | primitives (type other : Primitive) : Beside domain (.primitive type) (.primitive other)
  | members {place other : Place} (hplace : place ∈ domain.places)
      (hother : other ∈ domain.places) (howner : place.owner? = other.owner?)
      (hdots : '.' ∉ (Name.pascal place.tag).toList)
      (hdots' : '.' ∉ (Name.pascal other.tag).toList) :
      Beside domain (.domain place.tag) (.domain other.tag)

/-- Where tags are unique, a tag leads to its place. -/
theorem hookName?_domain {domain : Domain} (htags : domain.tags.Nodup) {place : Place}
    (hplace : place ∈ domain.places) :
    domain.hookName? (.domain place.tag) = some place.hookName := by
  cases hfind : domain.places.find? (·.tag == place.tag) with
  | none => simpa using List.find?_eq_none.mp hfind place hplace
  | some found =>
    have htag : found.tag = place.tag := by simpa using List.find?_some hfind
    rw [hookName?, hfind, place_unique htags (List.mem_of_find?_eq_some hfind) hplace htag]
    rfl

end Domain

namespace Synthesis

namespace Scope

/-- A domain that leads a name is left out. -/
theorem withinDomain_append (domainName name : List Char) :
    withinDomain domainName (domainName ++ '.' :: name) = name := by
  have hprefix : (domainName ++ ['.']).isPrefixOf (domainName ++ '.' :: name) = true := by
    rw [List.isPrefixOf_iff_prefix]
    exact ⟨name, by simp⟩
  rw [withinDomain, if_pos hprefix, ← List.drop_drop, List.drop_left]
  rfl

/-- A name without dots is not led by any domain. -/
theorem withinDomain_of_notMem {domainName name : List Char} (h : '.' ∉ name) :
    withinDomain domainName name = name := by
  refine if_neg fun hprefix => h ?_
  rw [List.isPrefixOf_iff_prefix] at hprefix
  exact hprefix.subset (by simp)

/-- The hook of a member is named inside the domain. -/
theorem hookMethod_qualify (scope : Scope) (name : String) :
    scope.hookMethod (Name.qualify scope.domainName name) = "transform" ++ Name.undotted name := by
  have hlist : (Name.qualify scope.domainName name).toList =
      scope.domainName.toList ++ '.' :: name.toList := by
    simp [Name.qualify]
  rw [hookMethod, hlist, withinDomain_append]
  rfl

/-- The hook of a primitive type has its whole name, in which there is no dot. -/
theorem hookMethod_generatedName (scope : Scope) (type : Primitive) :
    scope.hookMethod type.generatedName = "transform" ++ type.generatedName := by
  have hdots : '.' ∉ type.generatedName.toList := by cases type <;> decide
  rw [hookMethod, withinDomain_of_notMem hdots]
  exact congrArg ("transform" ++ ·) (Name.undotted_of_notMem hdots)

end Scope

section Synthesized

variable {decl : Decl.Domain} {domain : Domain} (hok : Domain.synthesize decl = .ok domain)
include hok

/-- A hook is named after the generated name of the type. -/
theorem hook_method_eq {property : Property} (hproperty : property ∈ domain.properties) :
    property.hook.method = (scopeOf decl).hookMethod property.typeName := by
  obtain ⟨tuple, htuple, hproperty⟩ := List.mem_flatMap.mp hproperty
  obtain ⟨owner, source, -, h⟩ := exists_tuple_eq_ok_of_mem hok htuple
  obtain ⟨_, _, -, -, rfl⟩ := Scope.tuple_eq_ok_iff.mp h
  obtain ⟨declared, -, rfl⟩ := List.mem_map.mp hproperty
  rfl

/-- The hook of a property whose type the domain knows has the name under which hooks know it. -/
theorem exists_hookName_of_isKnown {property : Property} (hproperty : property ∈ domain.properties)
    (hknown : property.typeRef.IsKnown) : property.typeRef ∈ domain.types ∧
      ∃ name, domain.hookName? property.typeRef = some name ∧
        property.hook.method = "transform" ++ name := by
  have hmethod := hook_method_eq hok hproperty
  obtain ⟨tuple, htuple, hproperty⟩ := List.mem_flatMap.mp hproperty
  rcases (means_of_synthesize hok htuple hproperty).exists_of_isKnown hknown with
    ⟨type, href, hname⟩ | ⟨place, hplace, href, hname⟩ <;> rw [href]
  · have hall : type ∈ Primitive.all := by cases type <;> decide
    refine ⟨List.mem_append_left _ (List.mem_map_of_mem hall), type.generatedName, rfl, ?_⟩
    rw [hmethod, hname, Scope.hookMethod_generatedName]
  · refine ⟨List.mem_append_right _ (List.mem_map.mpr ⟨place, hplace, rfl⟩), place.hookName,
      Domain.hookName?_domain (coherent_of_synthesize hok).tags hplace, ?_⟩
    rw [hmethod, hname, name_of_synthesize hok, ← Place.undotted_localName]
    exact Scope.hookMethod_qualify (scopeOf decl) place.localName

/-- Properties share a hook exactly if hooks know their types under one name. -/
theorem hook_method_eq_iff {p q : Property} (hp : p ∈ domain.properties)
    (hq : q ∈ domain.properties) (hpKnown : p.typeRef.IsKnown) (hqKnown : q.typeRef.IsKnown) :
    p.hook.method = q.hook.method ↔ domain.hookName? p.typeRef = domain.hookName? q.typeRef := by
  obtain ⟨-, first, hfirst, hfirstMethod⟩ := exists_hookName_of_isKnown hok hp hpKnown
  obtain ⟨-, second, hsecond, hsecondMethod⟩ := exists_hookName_of_isKnown hok hq hqKnown
  rw [hfirst, hsecond, hfirstMethod, hsecondMethod, Option.some.injEq]
  exact String.append_right_inj _

/-- A name inside the domain belongs to one place. -/
theorem place_unique_of_localName {place other : Place} (hplace : place ∈ domain.places)
    (hother : other ∈ domain.places) (h : place.localName = other.localName) : place = other := by
  have hnames := (exists_synthesize_eq_ok_iff.mp ⟨domain, hok⟩).names
  rw [generatedNames_eq_map_places hok, List.map_map] at hnames
  refine List.inj_on_of_nodup_map hnames hplace hother ?_
  exact congrArg (Name.qualify domain.name) h

/-- Types that stand side by side do not share a hook. -/
theorem eq_of_beside {ref other : TypeRef} (hbeside : domain.Beside ref other)
    (h : domain.hookName? ref = domain.hookName? other) : ref = other := by
  cases hbeside with
  | primitives type other =>
    rw [Primitive.generatedName_injective (Option.some.inj h)]
  | members hplace hother howner hdots hdots' =>
    have htags := (coherent_of_synthesize hok).tags
    rw [Domain.hookName?_domain htags hplace, Domain.hookName?_domain htags hother] at h
    have hlocal := Place.localName_eq_of_hookName_eq howner hdots hdots' (Option.some.inj h)
    rw [place_unique_of_localName hok hplace hother hlocal]

end Synthesized

end Synthesis

/-- **When hooks are per type.** Two properties of known types share a hook exactly if hooks know
the types under one name. Types that stand side by side never do, and where no two types that the
domain knows do, hooks are per type. -/
theorem Domain.hook_method_eq_iff_and_hooksPerType {decl : Decl.Domain} {domain : Domain}
    (hok : Domain.synthesize decl = .ok domain) :
    (∀ p ∈ domain.properties, ∀ q ∈ domain.properties, p.typeRef.IsKnown → q.typeRef.IsKnown →
      (p.hook.method = q.hook.method ↔
        domain.hookName? p.typeRef = domain.hookName? q.typeRef)) ∧
    (∀ ref other, domain.Beside ref other → domain.hookName? ref = domain.hookName? other →
      ref = other) ∧
    ((domain.types.map domain.hookName?).Nodup → domain.HooksPerType) := by
  refine ⟨fun p hp q hq => Synthesis.hook_method_eq_iff hok hp hq,
    fun ref other => Synthesis.eq_of_beside hok, ?_⟩
  intro hdistinct p hp q hq hpKnown hqKnown hne hmethod
  obtain ⟨hpType, -⟩ := Synthesis.exists_hookName_of_isKnown hok hp hpKnown
  obtain ⟨hqType, -⟩ := Synthesis.exists_hookName_of_isKnown hok hq hqKnown
  have hname := (Synthesis.hook_method_eq_iff hok hp hq hpKnown hqKnown).mp hmethod
  exact hne (List.inj_on_of_nodup_map hdistinct hpType hqType hname)

/-- A domain with a tuple that refers to a primitive type, to a sum and to its variant. -/
def distinctHooks : Decl.Domain where
  tag := "toy"
  tuples := [⟨"wrapper", .product, [⟨"count", "int", .required⟩, ⟨"inner", "variable", .required⟩,
    ⟨"rest", "expr", .variadic⟩]⟩]
  sums := [⟨"expr", [⟨"variable", .product, []⟩]⟩]

theorem Domain.hook_method_eq_iff_and_hooksPerType_distinctHooks : ∃ domain,
    Domain.synthesize distinctHooks = .ok domain ∧
      domain.properties.map (·.hook.method) =
        ["transformLongPrimitive", "transformExprVariable", "transformExpr"] ∧
      (domain.types.map domain.hookName?).Nodup ∧ domain.HooksPerType := by
  obtain ⟨domain, hok, hmethods, hnames⟩ : ∃ domain,
      Domain.synthesize distinctHooks = .ok domain ∧
        domain.properties.map (·.hook.method) =
          ["transformLongPrimitive", "transformExprVariable", "transformExpr"] ∧
        domain.types.map domain.hookName? = [some "LongPrimitive", some "SymbolPrimitive",
          some "IonElement", some "BoolPrimitive", some "StringPrimitive", some "Wrapper",
          some "Expr", some "ExprVariable"] :=
    ⟨_, rfl, rfl, rfl⟩
  have hdistinct : (domain.types.map domain.hookName?).Nodup := by
    rw [hnames]
    decide
  exact ⟨domain, hok, hmethods, hdistinct,
    (Domain.hook_method_eq_iff_and_hooksPerType hok).2.2 hdistinct⟩

/-- A domain in which the path to a variant generates the name of a tuple. -/
def sharedHooks : Decl.Domain where
  tag := "toy"
  tuples := [⟨"expr_lit", .product, []⟩,
    ⟨"pair", .product, [⟨"first", "lit", .required⟩, ⟨"second", "expr_lit", .required⟩]⟩]
  sums := [⟨"expr", [⟨"lit", .product, []⟩]⟩]

/-- The domain is synthesized, but the variant and the tuple share a hook. -/
theorem exists_synthesize_sharedHooks_not_hooksPerType : ∃ domain,
    Domain.synthesize sharedHooks = .ok domain ∧ ¬ domain.HooksPerType := by
  obtain ⟨domain, p, q, hok, hproperties, hp, hq, hmethod⟩ : ∃ domain p q,
      Domain.synthesize sharedHooks = .ok domain ∧ domain.properties = [p, q] ∧
        p.typeRef = .domain "lit" ∧ q.typeRef = .domain "expr_lit" ∧
        p.hook.method = q.hook.method :=
    ⟨_, _, _, rfl, rfl, rfl, rfl, rfl⟩
  refine ⟨domain, hok, fun hperType => ?_⟩
  refine hperType p (by simp [hproperties]) q (by simp [hproperties]) ?_ ?_ ?_ hmethod
  · rw [hp]
    trivial
  · rw [hq]
    trivial
  · rw [hp, hq]
    decide

end DomainEvolution

import DomainEvolution.Proofs.LegalShape
import DomainEvolution.Proofs.SynthesisStages
import Mathlib.Data.List.Perm.Basic

/-!
# Legal declarations

A declared domain is synthesized exactly when it is legal: its members have tags and generated names
of their own, its sums have variants, and the properties of its tuples stand in order and have names
of their own. A refusal says what is wrong, and a clash of members is said before any fault of a
single one.
-/

namespace DomainEvolution.Decl

namespace Tuple

/-- The properties stand in legal order and have names of their own. -/
structure Legal (tuple : Decl.Tuple) : Prop where
  shape : Shape.Legal (tuple.properties.map (·.cardinality))
  names : (tuple.properties.map fun property => Name.camel property.tag).Nodup

/-- What is wrong with a tuple: the order of its properties, or else their names. -/
inductive IsFault (tuple : Decl.Tuple) (reason : ShapeError) : Prop
  | shape (h : Shape.IsFault (tuple.properties.map fun p => (p.tag, p.cardinality)) reason)
  | names (hshape : Shape.Legal (tuple.properties.map (·.cardinality)))
      (h : Overload.IsFault (tuple.properties.map fun p => (p.tag, Name.camel p.tag)) reason)

end Tuple

/-- A thing that is checked by itself. -/
inductive Part where
  | tuple (decl : Decl.Tuple)
  | sum (decl : Decl.Sum)

namespace Part

/-- Whether a part is legal by itself; a sum without its variants only needs to have some. -/
def Legal : Part → Prop
  | tuple decl => decl.Legal
  | sum decl => decl.variants ≠ []

/-- What is wrong with a part by itself. -/
def IsFault : Part → ShapeError → Prop
  | tuple decl, reason => decl.IsFault reason
  | sum decl, reason => decl.variants = [] ∧ reason = .emptySum

end Part

/-- The parts of a sum under the names by which errors mention them: the sum and then its
variants. -/
def Sum.parts (sum : Decl.Sum) : List (String × Part) :=
  (sum.tag, .sum sum) ::
    sum.variants.map fun v => (Synthesis.variantMember sum.tag v.tag, .tuple v)

/-- The first part of a list that is not legal, under its name, with what is wrong with it. -/
def FirstFault (parts : List (String × Part)) (member : String) (reason : ShapeError) : Prop :=
  ∃ before part after, parts = before ++ (member, part) :: after ∧
    (∀ earlier ∈ before, earlier.2.Legal) ∧ part.IsFault reason

namespace Domain

/-- The tuples at the top of the domain and then the variants of its sums. -/
def allTuples (decl : Decl.Domain) : List Decl.Tuple :=
  decl.tuples ++ decl.sums.flatMap (·.variants)

/-- The parts of a domain in the order of their declaration. -/
def parts (decl : Decl.Domain) : List (String × Part) :=
  decl.tuples.map (fun tuple => (tuple.tag, .tuple tuple)) ++ decl.sums.flatMap (·.parts)

/-- The tags of a domain with the qualified names that are generated for them: those of its tuples,
and of each of its sums with its variants. -/
def generatedNames (decl : Decl.Domain) : List (String × String) :=
  let domainName := Name.pascal decl.tag
  decl.tuples.map (fun tuple => (tuple.tag, Name.qualify domainName (Name.pascal tuple.tag))) ++
    decl.sums.flatMap fun sum =>
      let sumName := Name.qualify domainName (Name.pascal sum.tag)
      (sum.tag, sumName) ::
        sum.variants.map fun v => (v.tag, Name.qualify sumName (Name.pascal v.tag))

/-- What a declared domain has to meet. -/
structure Legal (decl : Decl.Domain) : Prop where
  tags : (decl.generatedNames.map (·.1)).Nodup
  names : (decl.generatedNames.map (·.2)).Nodup
  sums : ∀ sum ∈ decl.sums, sum.variants ≠ []
  shapes : ∀ tuple ∈ decl.allTuples, Shape.Legal (tuple.properties.map (·.cardinality))
  properties : ∀ tuple ∈ decl.allTuples,
    (tuple.properties.map fun property => Name.camel property.tag).Nodup

/-- What is wrong with a declared domain. A fault of a single member is told only if the members do
not clash, and it is the first one in the order of declaration. -/
inductive IsFault (decl : Decl.Domain) : CompileError → Prop
  | duplicateTag {tag : String} (h : 2 ≤ (decl.generatedNames.map (·.1)).count tag) :
      IsFault decl (.duplicateTag decl.tag tag)
  | nameCollision {name first second : String} (hne : first ≠ second)
      (hfirst : (first, name) ∈ decl.generatedNames)
      (hsecond : (second, name) ∈ decl.generatedNames) :
      IsFault decl (.nameCollision decl.tag name first second)
  | invalidShape {member : String} {reason : ShapeError}
      (htags : (decl.generatedNames.map (·.1)).Nodup)
      (hnames : (decl.generatedNames.map (·.2)).Nodup)
      (h : FirstFault decl.parts member reason) :
      IsFault decl (.invalidShape decl.tag member reason)

end Domain

/-- A first fault remains the first one behind legal parts. -/
theorem FirstFault.append_left {legal parts : List (String × Part)} {member : String}
    {reason : ShapeError} (hlegal : ∀ part ∈ legal, part.2.Legal)
    (h : FirstFault parts member reason) : FirstFault (legal ++ parts) member reason := by
  obtain ⟨before, part, after, rfl, hbefore, hpart⟩ := h
  refine ⟨legal ++ before, part, after, by rw [List.append_assoc], ?_, hpart⟩
  intro earlier hearlier
  rcases List.mem_append.mp hearlier with hearlier | hearlier
  · exact hlegal earlier hearlier
  · exact hbefore earlier hearlier

/-- A first fault remains the first one whatever follows. -/
theorem FirstFault.append_right {parts rest : List (String × Part)} {member : String}
    {reason : ShapeError} (h : FirstFault parts member reason) :
    FirstFault (parts ++ rest) member reason := by
  obtain ⟨before, part, after, rfl, hbefore, hpart⟩ := h
  exact ⟨before, part, after ++ rest, by rw [List.append_assoc, List.cons_append], hbefore, hpart⟩

end DomainEvolution.Decl

namespace DomainEvolution.Synthesis

open Decl (FirstFault)

namespace Scope

variable {scope : Scope}

/-! ### Tuples and sums -/

/-- A tuple is synthesized, by whatever owner and in whatever scope, exactly when it is legal. -/
theorem exists_tuple_eq_ok_iff {owner : String} {decl : Decl.Tuple} :
    (∃ tuple, scope.tuple owner decl = .ok tuple) ↔ decl.Legal := by
  have hcardinalities : (decl.properties.map scope.property).map (·.cardinality) =
      decl.properties.map (·.cardinality) := by simp
  have htags : (decl.properties.map scope.property).map Property.tag =
      decl.properties.map (·.tag) := by simp
  have hnames : (decl.properties.map scope.property).map Property.name =
      decl.properties.map fun property => Name.camel property.tag := by simp
  have hshape : Shape.Legal (decl.properties.map (·.cardinality)) ↔
      ∃ arity, Shape.arity (decl.properties.map scope.property) = .ok arity := by
    rw [Shape.exists_arity_eq_ok_iff, hcardinalities]
  constructor
  · rintro ⟨tuple, htuple⟩
    obtain ⟨arity, builders, harity, hbuilders, rfl⟩ := tuple_eq_ok_iff.mp htuple
    obtain ⟨hdistinct, _⟩ := Overload.builders_eq_ok_iff.mp hbuilders
    refine ⟨hshape.mpr ⟨arity, harity⟩, ?_⟩
    rw [← hnames]
    exact hdistinct.names
  · rintro ⟨hlegal, hnodup⟩
    obtain ⟨arity, harity⟩ := hshape.mp hlegal
    have hdistinct : Clash.Distinct Property.tag Property.name
        (decl.properties.map scope.property) := by
      refine ⟨?_, by rwa [hnames]⟩
      rw [htags]
      refine List.Nodup.of_map Name.camel ?_
      rwa [List.map_map]
    let builders := Overload.overloads (scope.completed owner decl arity [])
    have hbuilders : Overload.builders (scope.completed owner decl arity builders) = .ok builders :=
      Overload.builders_eq_ok_iff.mpr ⟨hdistinct, rfl⟩
    exact ⟨_, tuple_eq_ok_iff.mpr ⟨arity, builders, harity, hbuilders, rfl⟩⟩

/-- The same for a tuple whose errors are told of a member of a domain. -/
theorem exists_atMember_eq_ok_iff {domain member owner : String} {decl : Decl.Tuple} :
    (∃ tuple, atMember domain member (scope.tuple owner decl) = .ok tuple) ↔ decl.Legal := by
  simp only [atMember_eq_ok_iff, exists_tuple_eq_ok_iff]

/-- The reason for which a tuple is refused is true of it. -/
theorem isFault_of_tuple_eq_error {owner : String} {decl : Decl.Tuple} {reason : ShapeError}
    (herror : scope.tuple owner decl = .error reason) : decl.IsFault reason := by
  rcases tuple_eq_error_iff.mp herror with h | ⟨arity, harity, h⟩
  · have hfault := Shape.isFault_of_arity_eq_error h
    rw [List.map_map] at hfault
    refine .shape ?_
    simpa [Property.slot, Function.comp_def] using hfault
  · have hlegal := Shape.exists_arity_eq_ok_iff.mp ⟨arity, harity⟩
    have hfault := Overload.isFault_of_checkNames_eq_error h
    rw [List.map_map] at hlegal hfault
    refine .names ?_ ?_
    · simpa [Function.comp_def] using hlegal
    · simpa [Property.label, Function.comp_def] using hfault

/-- A sum is synthesized exactly when it and its variants are legal. -/
theorem exists_sum_eq_ok_iff {domain : String} {decl : Decl.Sum} :
    (∃ sum, scope.sum domain decl = .ok sum) ↔ ∀ part ∈ decl.parts, part.2.Legal := by
  simp only [Decl.Sum.parts, List.forall_mem_cons, List.forall_mem_map, Decl.Part.Legal]
  constructor
  · rintro ⟨sum, hsum⟩
    obtain ⟨hne, variants, hvariants, _⟩ := sum_eq_ok_iff.mp hsum
    refine ⟨hne, fun v hv => ?_⟩
    obtain ⟨tuple, _, hok⟩ := exists_mem_of_mapM_eq_ok hvariants hv
    exact exists_atMember_eq_ok_iff.mp ⟨tuple, hok⟩
  · rintro ⟨hne, hvariants⟩
    have hok : ∀ v ∈ decl.variants, ∃ tuple, scope.variant domain decl v = .ok tuple :=
      fun v hv => exists_atMember_eq_ok_iff.mpr (hvariants v hv)
    obtain ⟨variants, hvariants⟩ := exists_mapM_eq_ok hok
    exact ⟨_, sum_eq_ok_iff.mpr ⟨hne, variants, hvariants, rfl⟩⟩

/-- A sum is refused for the first of its parts that is not legal. -/
theorem firstFault_of_sum_eq_error {domain : String} {decl : Decl.Sum} {e : CompileError}
    (herror : scope.sum domain decl = .error e) :
    ∃ member reason, e = .invalidShape domain member reason ∧
      FirstFault decl.parts member reason := by
  rcases sum_eq_error_iff.mp herror with ⟨hempty, rfl⟩ | h
  · exact ⟨decl.tag, .emptySum, rfl, [], .sum decl, _, rfl, by simp, hempty, rfl⟩
  · obtain ⟨before, v, after, hsplit, hbefore, hv⟩ := mapM_eq_error_iff.mp h
    obtain ⟨reason, hreason, rfl⟩ := atMember_eq_error_iff.mp hv
    refine ⟨_, reason, rfl, (decl.tag, .sum decl) ::
      before.map (fun v => (variantMember decl.tag v.tag, .tuple v)), .tuple v,
      after.map (fun v => (variantMember decl.tag v.tag, .tuple v)), ?_, ?_,
      isFault_of_tuple_eq_error hreason⟩
    · rw [Decl.Sum.parts, hsplit, List.map_append, List.map_cons, List.cons_append]
    · simp only [List.forall_mem_cons, List.forall_mem_map, Decl.Part.Legal]
      exact ⟨by simp [hsplit], fun v hv => exists_atMember_eq_ok_iff.mp (hbefore v hv)⟩

end Scope

/-! ### Members -/

/-- The members claim the tags and the names that are generated, in some order. -/
theorem members_perm (decl : Decl.Domain) :
    ((scopeOf decl).members.map fun member => (member.tag, member.name)).Perm
      decl.generatedNames := by
  simp only [scopeOf, membersOf, Decl.Domain.generatedNames, List.map_append, List.map_map,
    List.map_flatMap]
  refine List.Perm.append (by rfl) (List.Perm.flatMap_left _ fun sum _ => ?_)
  exact List.perm_append_singleton _ _

/-- Members are distinct exactly when no tag and no generated name repeats. -/
theorem distinct_members_iff {decl : Decl.Domain} :
    Clash.Distinct Member.tag Member.name (scopeOf decl).members ↔
      (decl.generatedNames.map (·.1)).Nodup ∧ (decl.generatedNames.map (·.2)).Nodup := by
  have htags := ((members_perm decl).map (·.1)).nodup_iff
  have hnames := ((members_perm decl).map (·.2)).nodup_iff
  rw [List.map_map] at htags hnames
  rw [← htags, ← hnames]
  exact ⟨fun h => ⟨h.tags, h.names⟩, fun h => ⟨h.1, h.2⟩⟩

/-- A clash of members is true of the declaration. -/
theorem isFault_of_checkMembers_eq_error {decl : Decl.Domain} {e : CompileError}
    (herror : checkMembers decl.tag (scopeOf decl).members = .error e) : decl.IsFault e := by
  have hperm := members_perm decl
  unfold checkMembers at herror
  split at herror
  · cases herror
  · next later hfind =>
    cases herror
    cases Clash.isFirst_of_find?_eq_some hfind with
    | tag hsplit _ htag =>
      refine .duplicateTag ?_
      rw [← (hperm.map (·.1)).count_eq, List.map_map]
      change 2 ≤ ((scopeOf decl).members.map Member.tag).count later.tag
      rw [hsplit, List.map_append, List.map_cons, List.count_append, List.count_cons_self]
      have hpos := List.count_pos_iff.mpr htag
      omega
  · next earlier later hfind =>
    cases herror
    cases Clash.isFirst_of_find?_eq_some hfind with
    | name hsplit _ htag hearlier hname =>
      refine .nameCollision ?_ ?_ ?_
      · intro heq
        apply htag
        rw [← heq]
        exact List.mem_map_of_mem hearlier
      · refine hperm.subset (List.mem_map.mpr ⟨earlier, ?_, by rw [hname]⟩)
        rw [hsplit]
        exact List.mem_append_left _ hearlier
      · refine hperm.subset (List.mem_map.mpr ⟨later, ?_, rfl⟩)
        rw [hsplit]
        exact List.mem_append_right _ List.mem_cons_self

/-- A single member is refused for the first part of the declaration that is not legal. -/
theorem firstFault_of_members_eq_error {decl : Decl.Domain} {e : CompileError}
    (herror : decl.tuples.mapM (topTuple decl) = .error e ∨
      ∃ tuples, decl.tuples.mapM (topTuple decl) = .ok tuples ∧
        decl.sums.mapM ((scopeOf decl).sum decl.tag) = .error e) :
    ∃ member reason, e = .invalidShape decl.tag member reason ∧
      FirstFault decl.parts member reason := by
  have hlegal (tuples : List Decl.Tuple)
      (hok : ∀ tuple ∈ tuples, ∃ result, topTuple decl tuple = .ok result) :
      ∀ part ∈ tuples.map fun tuple => (tuple.tag, Decl.Part.tuple tuple), part.2.Legal := by
    simp only [List.forall_mem_map, Decl.Part.Legal]
    exact fun tuple htuple => Scope.exists_atMember_eq_ok_iff.mp (hok tuple htuple)
  rcases herror with h | ⟨tuples, htuples, h⟩
  · obtain ⟨before, tuple, after, hsplit, hbefore, htuple⟩ := mapM_eq_error_iff.mp h
    obtain ⟨reason, hreason, rfl⟩ := atMember_eq_error_iff.mp htuple
    refine ⟨_, reason, rfl, FirstFault.append_right ?_⟩
    exact ⟨before.map (fun t => (t.tag, .tuple t)), .tuple tuple,
      after.map (fun t => (t.tag, .tuple t)),
      by rw [hsplit, List.map_append, List.map_cons], hlegal before hbefore,
      Scope.isFault_of_tuple_eq_error hreason⟩
  · obtain ⟨before, sum, after, hsplit, hbefore, hsum⟩ := mapM_eq_error_iff.mp h
    obtain ⟨member, reason, rfl, hfault⟩ := Scope.firstFault_of_sum_eq_error hsum
    refine ⟨member, reason, rfl, FirstFault.append_left (hlegal _ fun tuple htuple => ?_) ?_⟩
    · obtain ⟨result, _, hresult⟩ := exists_mem_of_mapM_eq_ok htuples htuple
      exact ⟨result, hresult⟩
    · rw [hsplit, List.flatMap_append, List.flatMap_cons]
      refine FirstFault.append_left ?_ hfault.append_right
      simp only [List.mem_flatMap, forall_exists_index, and_imp]
      intro part earlier hearlier hpart
      exact Scope.exists_sum_eq_ok_iff.mp (hbefore earlier hearlier) part hpart

/-! ### Domains -/

/-- A domain is legal exactly when its members are distinct and all of its parts are legal. -/
theorem legal_iff {decl : Decl.Domain} :
    decl.Legal ↔ Clash.Distinct Member.tag Member.name (scopeOf decl).members ∧
      (∀ tuple ∈ decl.tuples, tuple.Legal) ∧
      ∀ sum ∈ decl.sums, ∀ part ∈ sum.parts, part.2.Legal := by
  rw [distinct_members_iff]
  simp only [Decl.Sum.parts, List.forall_mem_cons, List.forall_mem_map, Decl.Part.Legal]
  constructor
  · rintro ⟨htags, hnames, hsums, hshapes, hproperties⟩
    refine ⟨⟨htags, hnames⟩, fun tuple htuple => ?_, fun sum hsum => ⟨hsums sum hsum, ?_⟩⟩
    · have hmem : tuple ∈ decl.allTuples := List.mem_append_left _ htuple
      exact ⟨hshapes tuple hmem, hproperties tuple hmem⟩
    · intro v hv
      have hmem : v ∈ decl.allTuples :=
        List.mem_append_right _ (List.mem_flatMap.mpr ⟨sum, hsum, hv⟩)
      exact ⟨hshapes v hmem, hproperties v hmem⟩
  · rintro ⟨⟨htags, hnames⟩, htuples, hsums⟩
    have hall : ∀ tuple ∈ decl.allTuples, tuple.Legal := by
      intro tuple htuple
      rcases List.mem_append.mp htuple with htuple | htuple
      · exact htuples tuple htuple
      · obtain ⟨sum, hsum, hv⟩ := List.mem_flatMap.mp htuple
        exact (hsums sum hsum).2 tuple hv
    exact ⟨htags, hnames, fun sum hsum => (hsums sum hsum).1,
      fun tuple htuple => (hall tuple htuple).shape, fun tuple htuple => (hall tuple htuple).names⟩

/-- A domain is synthesized if its members are distinct and all of its parts are legal, and only
then. -/
theorem exists_synthesize_eq_ok_iff {decl : Decl.Domain} :
    (∃ domain, Domain.synthesize decl = .ok domain) ↔ decl.Legal := by
  rw [legal_iff]
  constructor
  · rintro ⟨domain, hdomain⟩
    obtain ⟨hmembers, tuples, sums, htuples, hsums, _⟩ := synthesize_eq_ok_iff.mp hdomain
    refine ⟨hmembers, fun tuple htuple => ?_, fun sum hsum => ?_⟩
    · obtain ⟨result, _, hresult⟩ := exists_mem_of_mapM_eq_ok htuples htuple
      exact Scope.exists_atMember_eq_ok_iff.mp ⟨result, hresult⟩
    · obtain ⟨result, _, hresult⟩ := exists_mem_of_mapM_eq_ok hsums hsum
      exact Scope.exists_sum_eq_ok_iff.mp ⟨result, hresult⟩
  · rintro ⟨hmembers, htuples, hsums⟩
    have htop : ∀ tuple ∈ decl.tuples, ∃ result, topTuple decl tuple = .ok result :=
      fun tuple htuple => Scope.exists_atMember_eq_ok_iff.mpr (htuples tuple htuple)
    have hsum : ∀ sum ∈ decl.sums, ∃ result, (scopeOf decl).sum decl.tag sum = .ok result :=
      fun sum h => Scope.exists_sum_eq_ok_iff.mpr (hsums sum h)
    obtain ⟨tuples, htuples⟩ := exists_mapM_eq_ok htop
    obtain ⟨sums, hsums⟩ := exists_mapM_eq_ok hsum
    exact ⟨_, synthesize_eq_ok_iff.mpr ⟨hmembers, tuples, sums, htuples, hsums, rfl⟩⟩

/-- The error of a refused domain is true of its declaration. -/
theorem isFault_of_synthesize_eq_error {decl : Decl.Domain} {e : CompileError}
    (herror : Domain.synthesize decl = .error e) : decl.IsFault e := by
  rcases synthesize_eq_error_iff.mp herror with h | ⟨hmembers, h⟩
  · exact isFault_of_checkMembers_eq_error h
  · obtain ⟨htags, hnames⟩ := distinct_members_iff.mp hmembers
    obtain ⟨member, reason, rfl, hfault⟩ := firstFault_of_members_eq_error h
    exact .invalidShape htags hnames hfault

/-- **Acceptance and faults of a declaration.** The legal declarations are synthesized and no others
are; and the error of any other one names a tag that is declared twice, or two tags with one
generated name, or, in a declaration without such clashes, the first part that is not legal with
what is wrong with it. -/
theorem synthesize_ok_iff_legal_and_error_isFault (decl : Decl.Domain) :
    ((∃ domain, Domain.synthesize decl = .ok domain) ↔ decl.Legal) ∧
      ∀ e, Domain.synthesize decl = .error e → decl.IsFault e :=
  ⟨exists_synthesize_eq_ok_iff, fun _ => isFault_of_synthesize_eq_error⟩

/-- A declaration with a tuple whose tag has a dot, which meets a variant in one generated name. -/
def dotted : Decl.Domain := ⟨"d", [⟨"s.V", .product, []⟩], [⟨"s", [⟨"v", .product, []⟩]⟩]⟩

theorem synthesize_isFault_dotted :
    Domain.synthesize dotted = .error (.nameCollision "d" "D.S.V" "s.V" "v") ∧
      dotted.IsFault (.nameCollision "d" "D.S.V" "s.V" "v") := by
  have herror : Domain.synthesize dotted = .error (.nameCollision "d" "D.S.V" "s.V" "v") := rfl
  exact ⟨herror, (synthesize_ok_iff_legal_and_error_isFault dotted).2 _ herror⟩

end DomainEvolution.Synthesis

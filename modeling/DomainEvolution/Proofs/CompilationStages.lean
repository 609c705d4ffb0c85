import DomainEvolution.Proofs.AcyclicLineage
import DomainEvolution.Proofs.DerivedFields
import DomainEvolution.Proofs.SideBySide
import DomainEvolution.Proofs.UniqueTags

/-!
# The stages of a compilation

A universe goes through five stages, and each one is only reached if those before it found no fault.
What a compilation results in can therefore be told by conditions on the declaration alone: the
first fault of the first stage that has one, or else a model for every domain and a transform for
every request, in the order of their declaration.
-/

namespace DomainEvolution

namespace Decl.Universe

/-- The tags of the declared domains. -/
def domainTags (decl : Decl.Universe) : List String := decl.domains.map (·.tag)

/-- A declared domain has the tag and becomes the model. -/
def Defines (decl : Decl.Universe) (tag : String) (model : DomainEvolution.Domain) : Prop :=
  ∃ domain ∈ decl.domains, domain.tag = tag ∧ Domain.synthesize domain = .ok model

/-- What the comparison of the two domains that a request names results in. -/
def Requested (decl : Decl.Universe) (request : Request) (result : Except CompileError Transform) :
    Prop :=
  ∃ source destination, decl.Defines request.source source ∧
    decl.Defines request.destination destination ∧ Transform.between source destination = result

/-- A request names declared domains. -/
def Declares (decl : Decl.Universe) (request : Request) : Prop :=
  request.source ∈ decl.domainTags ∧ request.destination ∈ decl.domainTags

/-- The domains have tags of their own, and each can be synthesized. -/
structure Synthesized (decl : Decl.Universe) : Prop where
  tags : decl.domainTags.Nodup
  models : ∀ domain ∈ decl.domains, ∃ model, Domain.synthesize domain = .ok model

/-- Moreover the requests name declared domains. -/
structure Resolved (decl : Decl.Universe) : Prop extends Synthesized decl where
  declares : ∀ request ∈ decl.requests, decl.Declares request

/-- Moreover no domain is its own ancestor. -/
structure Ordered (decl : Decl.Universe) : Prop extends Resolved decl where
  acyclic : Lineage.Acyclic decl.requests

/-- What the compilation of a universe results in. In an error, everything before what is named was
found to be right, and so was everything in the stages before. Among several cycles, the one that is
named is the one that the walk meets first. -/
inductive Verdict (decl : Decl.Universe) : Except CompileError DomainEvolution.Universe → Prop
  | duplicateDomain {before after : List Decl.Domain} {domain : Decl.Domain}
      (hsplit : decl.domains = before ++ domain :: after)
      (hbefore : (before.map (·.tag)).Nodup) (htag : domain.tag ∈ before.map (·.tag)) :
      Verdict decl (.error (.duplicateDomain domain.tag))
  | notSynthesized {before after : List Decl.Domain} {domain : Decl.Domain} {e : CompileError}
      (htags : decl.domainTags.Nodup) (hsplit : decl.domains = before ++ domain :: after)
      (hbefore : ∀ d ∈ before, ∃ model, Domain.synthesize d = .ok model)
      (herror : Domain.synthesize domain = .error e) : Verdict decl (.error e)
  | unknownSource {before after : List Request} {request : Request} (h : decl.Synthesized)
      (hsplit : decl.requests = before ++ request :: after)
      (hbefore : ∀ r ∈ before, decl.Declares r) (hsource : request.source ∉ decl.domainTags) :
      Verdict decl (.error (.unknownDomain request.source .source))
  | unknownDestination {before after : List Request} {request : Request} (h : decl.Synthesized)
      (hsplit : decl.requests = before ++ request :: after)
      (hbefore : ∀ r ∈ before, decl.Declares r) (hsource : request.source ∈ decl.domainTags)
      (hdestination : request.destination ∉ decl.domainTags) :
      Verdict decl (.error (.unknownDomain request.destination .destination))
  | cyclicTransform {chain : List String} (h : decl.Resolved)
      (hcycle : Lineage.IsCycle (Lineage.Edge decl.requests) chain)
      (hfound : Lineage.cycle? decl.requests = some chain) :
      Verdict decl (.error (.cyclicTransform chain))
  | notTransformed {before after : List Request} {request : Request} {e : CompileError}
      (h : decl.Ordered) (hsplit : decl.requests = before ++ request :: after)
      (hbefore : ∀ r ∈ before, ∃ transform, decl.Requested r (.ok transform))
      (herror : decl.Requested request (.error e)) : Verdict decl (.error e)
  | compiled {models : List DomainEvolution.Domain} {transforms : List Transform}
      (h : decl.Ordered)
      (hmodels : List.Forall₂ (fun domain model => Domain.synthesize domain = .ok model)
        decl.domains models)
      (htransforms : List.Forall₂ (fun request transform => decl.Requested request (.ok transform))
        decl.requests transforms) : Verdict decl (.ok ⟨models, transforms⟩)

end Decl.Universe

namespace Compilation

/-! ### Domain tags -/

/-- Reading on behind earlier tags succeeds if no tag repeats and none is an earlier one. -/
theorem checkDistinctAfter_eq_ok_iff {earlier : List String} {domains : List Decl.Domain} :
    checkDistinctAfter earlier domains = .ok () ↔
      (domains.map (·.tag)).Nodup ∧ ∀ domain ∈ domains, domain.tag ∉ earlier := by
  induction domains generalizing earlier with
  | nil => simp [checkDistinctAfter]
  | cons next rest ih =>
    unfold checkDistinctAfter
    by_cases h : next.tag ∈ earlier
    · rw [if_pos (List.contains_iff_mem.mpr h)]
      simp [h]
    · rw [if_neg (mt List.contains_iff_mem.mp h), ih, List.map_cons, List.nodup_cons,
        List.forall_mem_cons]
      simp only [List.mem_cons, not_or, List.mem_map, not_exists, not_and]
      constructor
      · rintro ⟨hnodup, hrest⟩
        exact ⟨⟨fun d hd => (hrest d hd).1, hnodup⟩, h, fun d hd => (hrest d hd).2⟩
      · rintro ⟨⟨hnext, hnodup⟩, -, hrest⟩
        exact ⟨hnodup, fun d hd => ⟨hnext d hd, hrest d hd⟩⟩

/-- Reading on behind earlier tags fails at the first tag that is an earlier one or repeats. -/
theorem checkDistinctAfter_eq_error_iff {earlier : List String} {domains : List Decl.Domain}
    {e : CompileError} :
    checkDistinctAfter earlier domains = .error e ↔ ∃ before domain after,
      domains = before ++ domain :: after ∧ checkDistinctAfter earlier before = .ok () ∧
        (domain.tag ∈ earlier ∨ domain.tag ∈ before.map (·.tag)) ∧
        e = .duplicateDomain domain.tag := by
  induction domains generalizing earlier with
  | nil => simp [checkDistinctAfter]
  | cons next rest ih =>
    rw [checkDistinctAfter]
    by_cases h : next.tag ∈ earlier
    · rw [if_pos (List.contains_iff_mem.mpr h)]
      constructor
      · intro herror
        cases herror
        exact ⟨[], next, rest, rfl, rfl, Or.inl h, rfl⟩
      · rintro ⟨before, domain, after, hsplit, hbefore, -, rfl⟩
        cases before with
        | nil => rw [(List.cons.inj hsplit).1]
        | cons first before =>
          obtain ⟨rfl, -⟩ := List.cons.inj hsplit
          exact absurd h ((checkDistinctAfter_eq_ok_iff.mp hbefore).2 next List.mem_cons_self)
    · rw [if_neg (mt List.contains_iff_mem.mp h), ih]
      constructor
      · rintro ⟨before, domain, after, rfl, hbefore, htag, rfl⟩
        refine ⟨next :: before, domain, after, rfl, ?_, ?_, rfl⟩
        · rwa [checkDistinctAfter, if_neg (mt List.contains_iff_mem.mp h)]
        · rw [List.mem_cons] at htag
          rw [List.map_cons, List.mem_cons]
          tauto
      · rintro ⟨before, domain, after, hsplit, hbefore, htag, rfl⟩
        cases before with
        | nil =>
          obtain ⟨rfl, -⟩ := List.cons.inj hsplit
          exact absurd (htag.resolve_right List.not_mem_nil) h
        | cons first before =>
          obtain ⟨rfl, rfl⟩ := List.cons.inj hsplit
          rw [checkDistinctAfter, if_neg (mt List.contains_iff_mem.mp h)] at hbefore
          refine ⟨before, domain, after, rfl, hbefore, ?_, rfl⟩
          rw [List.map_cons, List.mem_cons] at htag
          rw [List.mem_cons]
          tauto

/-- Domains pass the check exactly when their tags are distinct. -/
theorem checkDistinct_eq_ok_iff {domains : List Decl.Domain} :
    checkDistinct domains = .ok () ↔ (domains.map (·.tag)).Nodup := by
  rw [checkDistinct, checkDistinctAfter_eq_ok_iff]
  simp

/-- Domains are refused for the first one whose tag an earlier one has. -/
theorem checkDistinct_eq_error_iff {domains : List Decl.Domain} {e : CompileError} :
    checkDistinct domains = .error e ↔ ∃ before domain after,
      domains = before ++ domain :: after ∧ (before.map (·.tag)).Nodup ∧
        domain.tag ∈ before.map (·.tag) ∧ e = .duplicateDomain domain.tag := by
  simp only [checkDistinct, checkDistinctAfter_eq_error_iff, List.not_mem_nil, false_or,
    ← checkDistinct_eq_ok_iff]

/-! ### Models by tag -/

section Models

variable {decl : Decl.Universe} {models : List Domain}

/-- A model keeps the tag of its domain. -/
theorem tag_of_synthesize {domain : Decl.Domain} {model : Domain}
    (hok : Domain.synthesize domain = .ok model) : model.tag = domain.tag := by
  obtain ⟨_, tuples, sums, _, _, rfl⟩ := Synthesis.synthesize_eq_ok_iff.mp hok
  rfl

variable (hmodels : decl.domains.mapM Domain.synthesize = .ok models)
include hmodels

/-- The models have the tags of the declared domains. -/
theorem map_tag_models : models.map (·.tag) = decl.domainTags :=
  map_eq_map_of_mapM_eq_ok (fun _ _ _ hmodel => tag_of_synthesize hmodel) hmodels

/-- A tag is declared exactly when it is that of a domain with a model. -/
theorem mem_domainTags_iff_exists_defines {tag : String} :
    tag ∈ decl.domainTags ↔ ∃ model, decl.Defines tag model := by
  constructor
  · intro htag
    obtain ⟨domain, hdomain, rfl⟩ := List.mem_map.mp htag
    obtain ⟨model, -, hmodel⟩ := exists_mem_of_mapM_eq_ok hmodels hdomain
    exact ⟨model, domain, hdomain, rfl, hmodel⟩
  · rintro ⟨_, domain, hdomain, rfl, -⟩
    exact List.mem_map_of_mem hdomain

variable (htags : decl.domainTags.Nodup)
include htags

/-- The model that is found under a tag is the one that the declaration defines. -/
theorem find?_eq_some_iff_defines {tag : String} {model : Domain} :
    find? models tag = some model ↔ decl.Defines tag model := by
  have hnodup : (models.reverse.map (·.tag)).Nodup := by
    rw [List.map_reverse, List.nodup_reverse, map_tag_models hmodels]
    exact htags
  rw [find?, ← List.reverse_reverse models, reverse_find?_eq_some_iff hnodup, List.mem_reverse]
  constructor
  · rintro ⟨hmem, rfl⟩
    obtain ⟨domain, hdomain, hmodel⟩ := exists_of_mem_of_mapM_eq_ok hmodels hmem
    exact ⟨domain, hdomain, (tag_of_synthesize hmodel).symm, hmodel⟩
  · rintro ⟨domain, hdomain, rfl, hmodel⟩
    obtain ⟨found, hfound, hsame⟩ := exists_mem_of_mapM_eq_ok hmodels hdomain
    obtain rfl := Except.ok.inj (hsame.symm.trans hmodel)
    exact ⟨hfound, tag_of_synthesize hmodel⟩

theorem lookUp_eq_ok_iff {role : Role} {tag : String} {model : Domain} :
    lookUp models role tag = .ok model ↔ decl.Defines tag model := by
  rw [← find?_eq_some_iff_defines hmodels htags, lookUp]
  cases find? models tag <;> simp

theorem lookUp_eq_error_iff {role : Role} {tag : String} {e : CompileError} :
    lookUp models role tag = .error e ↔ tag ∉ decl.domainTags ∧ e = .unknownDomain tag role := by
  have hnone : find? models tag = none ↔ tag ∉ decl.domainTags := by
    rw [mem_domainTags_iff_exists_defines hmodels, Option.eq_none_iff_forall_ne_some, not_exists]
    simp only [ne_eq, find?_eq_some_iff_defines hmodels htags]
  rw [← hnone, lookUp]
  cases find? models tag <;> simp [eq_comm]

/-- The source and the destination of a request are the models that the declaration defines. -/
theorem resolve_eq_ok_iff {request : Decl.Request} {pair : Domain × Domain} :
    resolve models request = .ok pair ↔
      decl.Defines request.source pair.1 ∧ decl.Defines request.destination pair.2 := by
  simp only [resolve, bind_eq_ok_iff, lookUp_eq_ok_iff hmodels htags]
  constructor
  · rintro ⟨source, hsource, destination, hdestination, h⟩
    cases h
    exact ⟨hsource, hdestination⟩
  · rintro ⟨hsource, hdestination⟩
    exact ⟨pair.1, hsource, pair.2, hdestination, rfl⟩

/-- A request is refused for its source, or else for its destination. -/
theorem resolve_eq_error_iff {request : Decl.Request} {e : CompileError} :
    resolve models request = .error e ↔
      (request.source ∉ decl.domainTags ∧ e = .unknownDomain request.source .source) ∨
        (request.source ∈ decl.domainTags ∧ request.destination ∉ decl.domainTags ∧
          e = .unknownDomain request.destination .destination) := by
  simp only [resolve, bind_eq_error_iff, lookUp_eq_error_iff hmodels htags,
    lookUp_eq_ok_iff hmodels htags, mem_domainTags_iff_exists_defines hmodels]
  constructor
  · rintro (h | ⟨source, hsource, h | ⟨_, _, h⟩⟩)
    · exact Or.inl h
    · exact Or.inr ⟨⟨source, hsource⟩, h⟩
    · cases h
  · rintro (h | ⟨⟨source, hsource⟩, h⟩)
    · exact Or.inl h
    · exact Or.inr ⟨source, hsource, Or.inl h⟩

/-- A request is resolved exactly when it names declared domains. -/
theorem exists_resolve_eq_ok_iff {request : Decl.Request} :
    (∃ pair, resolve models request = .ok pair) ↔ decl.Declares request := by
  simp only [resolve_eq_ok_iff hmodels htags, Decl.Universe.Declares,
    mem_domainTags_iff_exists_defines hmodels]
  constructor
  · rintro ⟨pair, hsource, hdestination⟩
    exact ⟨⟨_, hsource⟩, _, hdestination⟩
  · rintro ⟨⟨source, hsource⟩, destination, hdestination⟩
    exact ⟨(source, destination), hsource, hdestination⟩

/-- For a request that names declared domains, the transform is the comparison of their models. -/
theorem transform_eq_iff {request : Decl.Request} (hdeclares : decl.Declares request)
    {result : Except CompileError Transform} :
    transform models request = result ↔ decl.Requested request result := by
  obtain ⟨pair, hpair⟩ := (exists_resolve_eq_ok_iff hmodels htags).mpr hdeclares
  have htransform : transform models request = Transform.between pair.1 pair.2 := by
    rw [transform, hpair]
    rfl
  obtain ⟨hsource, hdestination⟩ := (resolve_eq_ok_iff hmodels htags).mp hpair
  rw [htransform]
  constructor
  · rintro rfl
    exact ⟨pair.1, pair.2, hsource, hdestination, rfl⟩
  · rintro ⟨source, destination, hsource', hdestination', rfl⟩
    have hsame : resolve models request = .ok (source, destination) :=
      (resolve_eq_ok_iff hmodels htags).mpr ⟨hsource', hdestination'⟩
    rw [Except.ok.inj (hpair.symm.trans hsame)]

/-- Requests are refused for the first one that names an undeclared domain. -/
theorem mapM_resolve_eq_error_iff {requests : List Decl.Request} {e : CompileError} :
    requests.mapM (resolve models) = .error e ↔ ∃ before request after,
      requests = before ++ request :: after ∧ (∀ r ∈ before, decl.Declares r) ∧
        ((request.source ∉ decl.domainTags ∧ e = .unknownDomain request.source .source) ∨
          (request.source ∈ decl.domainTags ∧ request.destination ∉ decl.domainTags ∧
            e = .unknownDomain request.destination .destination)) := by
  simp only [mapM_eq_error_iff, exists_resolve_eq_ok_iff hmodels htags,
    resolve_eq_error_iff hmodels htags]

/-- Requests that name declared domains have the transforms that they ask for. -/
theorem mapM_transform_eq_ok_iff {requests : List Decl.Request}
    (hdeclares : ∀ request ∈ requests, decl.Declares request) {transforms : List Transform} :
    requests.mapM (transform models) = .ok transforms ↔
      List.Forall₂ (fun request transform => decl.Requested request (.ok transform))
        requests transforms := by
  rw [mapM_eq_ok_iff, List.forall₂_iff_zip, List.forall₂_iff_zip]
  refine and_congr_right fun _ => forall_congr' fun request => forall_congr' fun transform =>
    forall_congr' fun hmem => ?_
  exact transform_eq_iff hmodels htags (hdeclares request (List.of_mem_zip hmem).1)

/-- Requests that name declared domains fail with the first transform that fails. -/
theorem mapM_transform_eq_error_iff {requests : List Decl.Request}
    (hdeclares : ∀ request ∈ requests, decl.Declares request) {e : CompileError} :
    requests.mapM (transform models) = .error e ↔ ∃ before request after,
      requests = before ++ request :: after ∧
        (∀ r ∈ before, ∃ transform, decl.Requested r (.ok transform)) ∧
        decl.Requested request (.error e) := by
  rw [mapM_eq_error_iff]
  refine exists_congr fun before => exists_congr fun request => exists_congr fun after =>
    and_congr_right fun hsplit => ?_
  have htransform {r : Decl.Request} (hr : r ∈ before ++ request :: after)
      {result : Except CompileError Transform} :
      transform models r = result ↔ decl.Requested r result :=
    transform_eq_iff hmodels htags (hdeclares r (hsplit ▸ hr))
  refine and_congr (forall₂_congr fun r hr => exists_congr fun transform => ?_) ?_
  · exact htransform (List.mem_append_left _ hr)
  · exact htransform (by simp)

end Models

/-! ### The remaining stages -/

section Stages

variable {decl : Decl.Universe} {models : List Domain}

/-- Once the domains are synthesized, the requests are left. -/
theorem compile_of_synthesized (plan : Plan) (h : decl.Synthesized)
    (hmodels : decl.domains.mapM Domain.synthesize = .ok models) :
    Universe.compile decl plan = (do
      let pairs ← decl.requests.mapM (resolve models)
      Lineage.checkAcyclic decl.requests
      let transforms ← pairs.mapM between
      return ⟨models, transforms⟩) := by
  simp only [← transforms_eq_mapM plan]
  rw [Universe.compile, checkDistinct_eq_ok_iff.mpr h.tags, hmodels]
  rfl

/-- Once the requests are resolved, their order is to be checked. -/
theorem compile_of_resolved (plan : Plan) (h : decl.Resolved)
    (hmodels : decl.domains.mapM Domain.synthesize = .ok models) :
    Universe.compile decl plan = (do
      Lineage.checkAcyclic decl.requests
      let transforms ← decl.requests.mapM (transform models)
      return ⟨models, transforms⟩) := by
  obtain ⟨pairs, hpairs⟩ := exists_mapM_eq_ok fun request hrequest =>
    (exists_resolve_eq_ok_iff hmodels h.tags).mpr (h.declares request hrequest)
  have htransforms : pairs.mapM between = decl.requests.mapM (transform models) :=
    mapM_eq_mapM_bind between hpairs
  rw [compile_of_synthesized plan h.toSynthesized hmodels, hpairs, ← htransforms]
  rfl

/-- Once the requests are known to have no cycle, the transforms are left. -/
theorem compile_of_ordered (plan : Plan) (h : decl.Ordered)
    (hmodels : decl.domains.mapM Domain.synthesize = .ok models) :
    Universe.compile decl plan = (do
      let transforms ← decl.requests.mapM (transform models)
      return ⟨models, transforms⟩) := by
  rw [compile_of_resolved plan h.toResolved hmodels, Lineage.checkAcyclic,
    Lineage.cycle?_eq_none_iff_acyclic.mpr h.acyclic]
  rfl

/-- A universe whose requests have no cycle comes to its transforms. -/
theorem verdict_compile_of_ordered (plan : Plan) (h : decl.Ordered) :
    decl.Verdict (Universe.compile decl plan) := by
  obtain ⟨models, hmodels⟩ := exists_mapM_eq_ok h.models
  rw [compile_of_ordered plan h hmodels]
  cases hresult : decl.requests.mapM (transform models) with
  | ok transforms =>
    exact .compiled h (mapM_eq_ok_iff.mp hmodels)
      ((mapM_transform_eq_ok_iff hmodels h.tags h.declares).mp hresult)
  | error e =>
    obtain ⟨before, request, after, hsplit, hbefore, herror⟩ :=
      (mapM_transform_eq_error_iff hmodels h.tags h.declares).mp hresult
    exact .notTransformed h hsplit hbefore herror

/-- A universe whose requests name declared domains comes to the check of their order. -/
theorem verdict_compile_of_resolved (plan : Plan) (h : decl.Resolved) :
    decl.Verdict (Universe.compile decl plan) := by
  cases hcycle : Lineage.cycle? decl.requests with
  | none =>
    exact verdict_compile_of_ordered plan ⟨h, Lineage.cycle?_eq_none_iff_acyclic.mp hcycle⟩
  | some chain =>
    obtain ⟨models, hmodels⟩ := exists_mapM_eq_ok h.models
    rw [compile_of_resolved plan h hmodels, Lineage.checkAcyclic, hcycle]
    exact .cyclicTransform h (Lineage.isCycle_of_cycle?_eq_some hcycle) hcycle

/-- A universe whose domains are synthesized comes to its requests. -/
theorem verdict_compile_of_synthesized (plan : Plan) (h : decl.Synthesized) :
    decl.Verdict (Universe.compile decl plan) := by
  obtain ⟨models, hmodels⟩ := exists_mapM_eq_ok h.models
  cases hresult : decl.requests.mapM (resolve models) with
  | ok pairs =>
    refine verdict_compile_of_resolved plan ⟨h, fun request hrequest => ?_⟩
    obtain ⟨pair, -, hpair⟩ := exists_mem_of_mapM_eq_ok hresult hrequest
    exact (exists_resolve_eq_ok_iff hmodels h.tags).mp ⟨pair, hpair⟩
  | error e =>
    rw [compile_of_synthesized plan h hmodels, hresult]
    obtain ⟨before, request, after, hsplit, hbefore, hunknown⟩ :=
      (mapM_resolve_eq_error_iff hmodels h.tags).mp hresult
    rcases hunknown with ⟨hsource, rfl⟩ | ⟨hsource, hdestination, rfl⟩
    · exact .unknownSource h hsplit hbefore hsource
    · exact .unknownDestination h hsplit hbefore hsource hdestination

/-- What comes out of a compilation is a verdict on the universe. -/
theorem verdict_compile (decl : Decl.Universe) (plan : Plan) :
    decl.Verdict (Universe.compile decl plan) := by
  cases hdistinct : checkDistinct decl.domains with
  | error e =>
    obtain ⟨before, domain, after, hsplit, hbefore, htag, rfl⟩ :=
      checkDistinct_eq_error_iff.mp hdistinct
    rw [Universe.compile, hdistinct]
    exact .duplicateDomain hsplit hbefore htag
  | ok _ =>
    have htags : decl.domainTags.Nodup := checkDistinct_eq_ok_iff.mp hdistinct
    cases hmodels : decl.domains.mapM Domain.synthesize with
    | error e =>
      obtain ⟨before, domain, after, hsplit, hbefore, herror⟩ := mapM_eq_error_iff.mp hmodels
      rw [Universe.compile, hdistinct, hmodels]
      exact .notSynthesized htags hsplit hbefore herror
    | ok models =>
      refine verdict_compile_of_synthesized plan ⟨htags, fun domain hdomain => ?_⟩
      obtain ⟨model, -, hmodel⟩ := exists_mem_of_mapM_eq_ok hmodels hdomain
      exact ⟨model, hmodel⟩

/-- A verdict on the universe is what comes out of its compilation. -/
theorem compile_eq_of_verdict (plan : Plan) {result : Except CompileError Universe}
    (hverdict : decl.Verdict result) : Universe.compile decl plan = result := by
  cases hverdict with
  | duplicateDomain hsplit hbefore htag =>
    rw [Universe.compile, checkDistinct_eq_error_iff.mpr ⟨_, _, _, hsplit, hbefore, htag, rfl⟩]
    rfl
  | notSynthesized htags hsplit hbefore herror =>
    rw [Universe.compile, checkDistinct_eq_ok_iff.mpr htags,
      mapM_eq_error_iff.mpr ⟨_, _, _, hsplit, hbefore, herror⟩]
    rfl
  | unknownSource h hsplit hbefore hsource =>
    obtain ⟨models, hmodels⟩ := exists_mapM_eq_ok h.models
    rw [compile_of_synthesized plan h hmodels, (mapM_resolve_eq_error_iff hmodels h.tags).mpr
      ⟨_, _, _, hsplit, hbefore, Or.inl ⟨hsource, rfl⟩⟩]
    rfl
  | unknownDestination h hsplit hbefore hsource hdestination =>
    obtain ⟨models, hmodels⟩ := exists_mapM_eq_ok h.models
    rw [compile_of_synthesized plan h hmodels, (mapM_resolve_eq_error_iff hmodels h.tags).mpr
      ⟨_, _, _, hsplit, hbefore, Or.inr ⟨hsource, hdestination, rfl⟩⟩]
    rfl
  | cyclicTransform h _ hfound =>
    obtain ⟨models, hmodels⟩ := exists_mapM_eq_ok h.models
    rw [compile_of_resolved plan h hmodels, Lineage.checkAcyclic, hfound]
    rfl
  | notTransformed h hsplit hbefore herror =>
    obtain ⟨models, hmodels⟩ := exists_mapM_eq_ok h.models
    rw [compile_of_ordered plan h hmodels, (mapM_transform_eq_error_iff hmodels h.tags
      h.declares).mpr ⟨_, _, _, hsplit, hbefore, herror⟩]
    rfl
  | compiled h hmodels htransforms =>
    have hmodels := mapM_eq_ok_iff.mpr hmodels
    rw [compile_of_ordered plan h hmodels,
      (mapM_transform_eq_ok_iff hmodels h.tags h.declares).mpr htransforms]
    rfl

/-- A universe compiles into models of its domains and the transforms that its requests ask for,
provided that it is in order. -/
theorem compile_eq_ok_iff {plan : Plan} {result : Universe} :
    Universe.compile decl plan = .ok result ↔ decl.Ordered ∧
      List.Forall₂ (fun domain model => Domain.synthesize domain = .ok model)
        decl.domains result.domains ∧
      List.Forall₂ (fun request transform => decl.Requested request (.ok transform))
        decl.requests result.transforms := by
  constructor
  · intro hok
    have hverdict := verdict_compile decl plan
    rw [hok] at hverdict
    cases hverdict with
    | compiled h hmodels htransforms => exact ⟨h, hmodels, htransforms⟩
  · rintro ⟨h, hmodels, htransforms⟩
    exact compile_eq_of_verdict plan (.compiled h hmodels htransforms)

end Stages

end Compilation

/-- **The result of a compilation is the verdict on the declaration**, whatever the plan: the first
fault of the first stage that has one, or else a model for every domain and a transform for every
request, in their order. -/
theorem Universe.compile_eq_iff_verdict (decl : Decl.Universe) (plan : Plan)
    (result : Except CompileError Universe) :
    Universe.compile decl plan = result ↔ decl.Verdict result := by
  constructor
  · rintro rfl
    exact Compilation.verdict_compile decl plan
  · exact Compilation.compile_eq_of_verdict plan

/-- A request for an unknown domain is refused before an earlier one for a cycle. -/
example : Universe.compile ⟨[⟨"v1", [], []⟩], [⟨"v1", "v1"⟩, ⟨"v1", "v2"⟩]⟩ {} =
    .error (.unknownDomain "v2" .destination) := by
  cbv

end DomainEvolution

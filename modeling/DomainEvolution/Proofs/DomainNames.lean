import DomainEvolution.Proofs.CompilationStages
import DomainEvolution.Proofs.DifferenceMembers

/-!
# Domains by their generated names

A transform mentions its two domains by their generated names alone, but only tags are kept apart
when a universe is compiled. A name leads back to the domain it was taken from exactly if no other
declared tag generates it; inside a domain such tags are refused, between domains they are not.
-/

namespace DomainEvolution

/-- The domains of a model that are generated under a name. -/
def Universe.named (model : Universe) (name : String) : List Domain :=
  model.domains.filter (·.name == name)

/-- Every name that a transform mentions is that of exactly one domain. -/
def Universe.NamesIdentify (model : Universe) : Prop :=
  ∀ transform ∈ model.transforms, (model.named transform.sourceName).length = 1 ∧
    (model.named transform.destinationName).length = 1

/-- No other declared domain is generated under the name of the domain with the tag. -/
def Decl.Universe.GeneratesAlone (decl : Decl.Universe) (tag : String) : Prop :=
  ∀ other ∈ decl.domainTags, Name.pascal other = Name.pascal tag → other = tag

namespace Compilation

/-- Domains that a declaration defines are coherent. -/
theorem coherent_of_defines {decl : Decl.Universe} {tag : String} {model : Domain}
    (h : decl.Defines tag model) : model.Coherent := by
  obtain ⟨_, -, -, hok⟩ := h
  exact Synthesis.coherent_of_synthesize hok

/-- The domain with a given tag is the only one of its name exactly if its tag generates the name
alone. -/
theorem named_eq_singleton_iff {decl : Decl.Universe} {model : Universe}
    (hmodels : decl.domains.mapM Domain.synthesize = .ok model.domains)
    (htags : decl.domainTags.Nodup) {tag : String} {domain : Domain}
    (hdefines : decl.Defines tag domain) :
    model.named domain.name = [domain] ↔ decl.GeneratesAlone tag := by
  obtain ⟨declared, hdeclared, rfl, hsynthesize⟩ := hdefines
  have hmem {d : Domain} : d ∈ model.named domain.name ↔
      ∃ other ∈ decl.domains, Domain.synthesize other = .ok d ∧
        Name.pascal other.tag = Name.pascal declared.tag := by
    rw [Universe.named, List.mem_filter, beq_iff_eq, Synthesis.name_of_synthesize hsynthesize]
    constructor
    · rintro ⟨hd, hname⟩
      obtain ⟨other, hother, hok⟩ := exists_of_mem_of_mapM_eq_ok hmodels hd
      exact ⟨other, hother, hok, (Synthesis.name_of_synthesize hok).symm.trans hname⟩
    · rintro ⟨other, hother, hok, hname⟩
      obtain ⟨found, hfound, hsame⟩ := exists_mem_of_mapM_eq_ok hmodels hother
      obtain rfl := Except.ok.inj (hsame.symm.trans hok)
      exact ⟨hfound, (Synthesis.name_of_synthesize hok).trans hname⟩
  constructor
  · intro hsingle tag htag hname
    obtain ⟨other, hother, rfl⟩ := List.mem_map.mp htag
    obtain ⟨found, -, hfound⟩ := exists_mem_of_mapM_eq_ok hmodels hother
    have hsame : found = domain := by
      simpa [hsingle] using hmem.mpr ⟨other, hother, hfound, hname⟩
    rw [← tag_of_synthesize hfound, hsame, tag_of_synthesize hsynthesize]
  · intro halone
    have hnodup : (model.named domain.name).Nodup := by
      refine List.Nodup.filter _ (List.Nodup.of_map (·.tag) ?_)
      rwa [map_tag_models hmodels]
    refine List.perm_singleton.mp
      ((List.perm_ext_iff_of_nodup hnodup (List.nodup_singleton domain)).mpr fun d => ?_)
    rw [hmem, List.mem_singleton]
    constructor
    · rintro ⟨other, hother, hok, hname⟩
      have htag := halone other.tag (List.mem_map_of_mem hother) hname
      have hsame : other = declared := List.inj_on_of_nodup_map htags hother hdeclared htag
      exact Except.ok.inj (hok.symm.trans (hsame ▸ hsynthesize))
    · rintro rfl
      exact ⟨declared, hdeclared, hsynthesize, rfl⟩

end Compilation

/-- A transform mentions the domains that a request names by their names, and each of these names is
that of no other domain exactly if no other declared tag generates it. -/
def Decl.Universe.Mentions (decl : Decl.Universe) (model : DomainEvolution.Universe)
    (request : Decl.Request) (transform : Transform) : Prop :=
  ∃ source destination, decl.Defines request.source source ∧
    decl.Defines request.destination destination ∧
    transform.sourceName = source.name ∧ transform.destinationName = destination.name ∧
    (model.named transform.sourceName = [source] ↔ decl.GeneratesAlone request.source) ∧
    (model.named transform.destinationName = [destination] ↔
      decl.GeneratesAlone request.destination)

/-- **When the names in a transform identify its domains.** The transform of each request mentions
the domains that the request names, and a name leads back to its domain exactly if no other declared
tag generates it. -/
theorem Universe.named_iff_generatesAlone {decl : Decl.Universe} {plan : Plan} {model : Universe}
    (hok : Universe.compile decl plan = .ok model) :
    List.Forall₂ (decl.Mentions model) decl.requests model.transforms := by
  obtain ⟨hordered, hmodels, htransforms⟩ := Compilation.compile_eq_ok_iff.mp hok
  have hmodels := mapM_eq_ok_iff.mpr hmodels
  refine htransforms.imp fun request transform hrequested => ?_
  obtain ⟨source, destination, hsource, hdestination, hbetween⟩ := hrequested
  obtain ⟨hsourceName, hdestinationName⟩ : transform.sourceName = source.name ∧
      transform.destinationName = destination.name := by
    have htransform := Difference.isTransform_of_between
      (Compilation.coherent_of_defines hsource).tags
      (Compilation.coherent_of_defines hdestination) hbetween
    exact ⟨htransform.sourceName, htransform.destinationName⟩
  refine ⟨source, destination, hsource, hdestination, hsourceName, hdestinationName, ?_, ?_⟩
  · rw [hsourceName]
    exact Compilation.named_eq_singleton_iff hmodels hordered.tags hsource
  · rw [hdestinationName]
    exact Compilation.named_eq_singleton_iff hmodels hordered.tags hdestination

/-- Two versions of a domain under tags that generate one name. -/
def sameNames : Decl.Universe :=
  ⟨[⟨"a_b", [⟨"pair", .product, []⟩], []⟩, ⟨"aB", [⟨"triple", .product, []⟩], []⟩],
    [⟨"a_b", "aB"⟩]⟩

theorem exists_compile_sameNames : ∃ model, Universe.compile sameNames {} = .ok model ∧
    model.transforms.map (fun t => (model.named t.sourceName).length) = [2] := by
  have hacyclic : Lineage.checkAcyclic sameNames.requests = .ok () := by cbv
  rw [Universe.compile, hacyclic]
  exact ⟨_, rfl, rfl⟩

theorem Universe.named_iff_generatesAlone_sameNames : ∃ model,
    Universe.compile sameNames {} = .ok model ∧
      List.Forall₂ (sameNames.Mentions model) sameNames.requests model.transforms := by
  obtain ⟨model, hmodel, -⟩ := exists_compile_sameNames
  exact ⟨model, hmodel, Universe.named_iff_generatesAlone hmodel⟩

/-- The universe compiles, but the name in its transform is that of both domains. -/
theorem exists_compile_sameNames_not_namesIdentify : ∃ model,
    Universe.compile sameNames {} = .ok model ∧ ¬ model.NamesIdentify := by
  obtain ⟨model, hmodel, hlengths⟩ := exists_compile_sameNames
  refine ⟨model, hmodel, fun hidentify => ?_⟩
  have hone : ∀ n ∈ model.transforms.map (fun t => (model.named t.sourceName).length), n = 1 := by
    intro n hn
    obtain ⟨transform, htransform, rfl⟩ := List.mem_map.mp hn
    exact (hidentify transform htransform).1
  rw [hlengths] at hone
  exact absurd (hone 2 List.mem_cons_self) (by decide)

end DomainEvolution

import DomainEvolution.Proofs.DomainNames

/-!
# Tags of differences

A difference has a tag that joins the tags of its two domains. Nothing keeps the joint out of a tag,
so a joined tag can be read in several ways: two requests share one exactly if one of them moves the
joint of the other, and nothing compares joined tags with those that are declared. Where no declared
tag has the joint in it, differences have tags of their own.
-/

namespace DomainEvolution

namespace Decl

/-- The tags of the two domains of a request, joined. -/
def Request.joined (request : Request) : String :=
  request.source ++ "_to_" ++ request.destination

/-- The second request has the joint further back in the same text: at another joint in the
destination of the first, or overlapping the first joint in its last underscore. -/
def Request.MovesTo (first second : Request) : Prop :=
  (∃ middle, second.source = first.source ++ "_to_" ++ middle ∧
    first.destination = middle ++ "_to_" ++ second.destination) ∨
  (second.source = first.source ++ "_to" ∧ first.destination = "to_" ++ second.destination)

/-- Whether a joint can be read in a tag, or at its end together with an underscore that follows. -/
def HasJoint (tag : String) : Prop := "_to_".toList <:+: (tag ++ "_").toList

instance (tag : String) : Decidable (HasJoint tag) := inferInstanceAs (Decidable (_ <:+: _))

end Decl

/-- The tags of the differences of a model. -/
def Universe.differenceTags (model : Universe) : List String :=
  model.transforms.map (·.difference.tag)

/-- Differences have tags of their own, none of which is that of a domain. -/
structure Universe.DifferencesFresh (model : Universe) : Prop where
  distinct : model.differenceTags.Nodup
  undeclared : ∀ tag ∈ model.differenceTags, tag ∉ model.domains.map (·.tag)

namespace Decl

/-! ### Reading a joined tag -/

/-- Behind a joint, another joint is found at the same place, at its end, or further back. -/
private theorem joint_append_eq_iff {between first second : List Char} :
    "_to_".toList ++ first = between ++ ("_to_".toList ++ second) ↔
      (between = [] ∧ first = second) ∨
      (between = "_to".toList ∧ first = "to_".toList ++ second) ∨
      ∃ middle, between = "_to_".toList ++ middle ∧
        first = middle ++ ("_to_".toList ++ second) := by
  constructor
  · intro h
    -- The second joint begins at most four characters behind the first, or behind all of it.
    rcases between with _ | ⟨c₁, _ | ⟨c₂, _ | ⟨c₃, _ | ⟨c₄, middle⟩⟩⟩⟩
    · exact Or.inl ⟨rfl, List.append_cancel_left h⟩
    · simp at h
    · simp at h
    · obtain ⟨rfl, rfl, rfl, rfl⟩ : '_' = c₁ ∧ 't' = c₂ ∧ 'o' = c₃ ∧
          first = "to_".toList ++ second := by simpa using h
      exact Or.inr (Or.inl ⟨rfl, rfl⟩)
    · obtain ⟨rfl, rfl, rfl, rfl, rfl⟩ : '_' = c₁ ∧ 't' = c₂ ∧ 'o' = c₃ ∧ '_' = c₄ ∧
          first = middle ++ ("_to_".toList ++ second) := by simpa using h
      exact Or.inr (Or.inr ⟨middle, rfl, rfl⟩)
  · rintro (⟨rfl, rfl⟩ | ⟨rfl, rfl⟩ | ⟨middle, rfl, rfl⟩)
    · rfl
    · rfl
    · simp

namespace Request

variable {first second : Request}

theorem toList_joined (request : Request) : request.joined.toList =
    request.source.toList ++ ("_to_".toList ++ request.destination.toList) := by
  rw [joined, String.toList_append, String.toList_append, List.append_assoc]

/-- Requests that are joined to one text are the same if their sources are, and otherwise the one
with the longer source has the joint further back. -/
private theorem eq_or_movesTo {between : List Char}
    (hsource : second.source.toList = first.source.toList ++ between)
    (hrest : "_to_".toList ++ first.destination.toList =
      between ++ ("_to_".toList ++ second.destination.toList)) :
    first = second ∨ first.MovesTo second := by
  rcases joint_append_eq_iff.mp hrest with ⟨rfl, hdestination⟩ | ⟨rfl, hdestination⟩ |
    ⟨middle, rfl, hdestination⟩
  · rw [List.append_nil] at hsource
    have hsame : first.source = second.source := String.toList_inj.mp hsource.symm
    have hsame' : first.destination = second.destination := String.toList_inj.mp hdestination
    cases first
    cases second
    exact Or.inl (congrArg₂ Request.mk hsame hsame')
  · refine Or.inr (Or.inr ⟨?_, ?_⟩) <;> rw [← String.toList_inj, String.toList_append]
    · exact hsource
    · exact hdestination
  · refine Or.inr (Or.inl ⟨String.ofList middle, ?_, ?_⟩) <;> rw [← String.toList_inj]
    · simpa using hsource
    · simpa using hdestination

theorem MovesTo.joined_eq (h : first.MovesTo second) : first.joined = second.joined := by
  unfold joined
  rcases h with ⟨middle, hsource, hdestination⟩ | ⟨hsource, hdestination⟩
  · rw [hsource, hdestination]
    simp only [String.append_assoc]
  · have hoverlap : "_to_" ++ "to_" = "_to" ++ "_to_" := by decide
    calc first.source ++ "_to_" ++ first.destination
        = first.source ++ ("_to_" ++ "to_") ++ second.destination := by
          rw [hdestination]
          simp only [String.append_assoc]
      _ = first.source ++ ("_to" ++ "_to_") ++ second.destination := by rw [hoverlap]
      _ = second.source ++ "_to_" ++ second.destination := by
          rw [hsource]
          simp only [String.append_assoc]

/-- A request has its joint at one place. -/
theorem not_movesTo_self (request : Request) : ¬ request.MovesTo request := by
  have hjoint : "_to_".length = 4 := by decide
  have hpart : "_to".length = 3 := by decide
  rintro (⟨middle, hsource, -⟩ | ⟨hsource, -⟩)
  · have hlength := congrArg String.length hsource
    rw [String.length_append, String.length_append] at hlength
    omega
  · have hlength := congrArg String.length hsource
    rw [String.length_append] at hlength
    omega

/-- Requests share a joined tag exactly if they are the same or one of them moves the joint of
the other. -/
theorem joined_eq_iff : first.joined = second.joined ↔
    first = second ∨ first.MovesTo second ∨ second.MovesTo first := by
  constructor
  · intro h
    have hlist := congrArg String.toList h
    rw [toList_joined, toList_joined] at hlist
    rcases List.append_eq_append_iff.mp hlist with ⟨between, hsource, hrest⟩ |
      ⟨between, hsource, hrest⟩
    · exact (eq_or_movesTo hsource hrest).imp_right Or.inl
    · exact (eq_or_movesTo hsource hrest).imp Eq.symm Or.inr
  · rintro (rfl | h | h)
    · rfl
    · exact h.joined_eq
    · exact h.joined_eq.symm

theorem hasJoint_joined (request : Request) : HasJoint request.joined :=
  ⟨request.source.toList, request.destination.toList ++ ['_'], by simp [joined]⟩

/-- Only a source in which a joint can be read moves one. -/
theorem MovesTo.hasJoint (h : first.MovesTo second) : HasJoint second.source := by
  rcases h with ⟨middle, hsource, -⟩ | ⟨hsource, -⟩
  · exact ⟨first.source.toList, middle.toList ++ ['_'], by simp [hsource]⟩
  · exact ⟨first.source.toList, [], by simp [hsource]⟩

end Request

end Decl

/-! ### The tags of differences -/

namespace Compilation

variable {decl : Decl.Universe} {plan : Plan} {model : Universe}

/-- The tag of each difference joins the tags in its request. -/
theorem differenceTags_eq (hok : Universe.compile decl plan = .ok model) :
    model.differenceTags = decl.requests.map Decl.Request.joined := by
  obtain ⟨-, -, htransforms⟩ := compile_eq_ok_iff.mp hok
  rw [Universe.differenceTags, ← List.forall₂_eq_eq_eq, List.forall₂_map_left_iff,
    List.forall₂_map_right_iff]
  refine htransforms.flip.imp fun transform request hrequested => ?_
  obtain ⟨source, destination, hsource, hdestination, hbetween⟩ := hrequested
  have htag := (Difference.isTransform_of_between (coherent_of_defines hsource).tags
    (coherent_of_defines hdestination) hbetween).tag
  obtain ⟨_, -, hsourceTag, hsynthesizeSource⟩ := hsource
  obtain ⟨_, -, hdestinationTag, hsynthesizeDestination⟩ := hdestination
  rw [htag, tag_of_synthesize hsynthesizeSource, hsourceTag,
    tag_of_synthesize hsynthesizeDestination, hdestinationTag]
  rfl

/-- Differences have fresh tags exactly if no request moves the joint of another and no joined tag
is declared. -/
theorem differencesFresh_iff (hok : Universe.compile decl plan = .ok model)
    (hrequests : decl.requests.Nodup) :
    model.DifferencesFresh ↔
      (∀ first ∈ decl.requests, ∀ second ∈ decl.requests, ¬ first.MovesTo second) ∧
        ∀ request ∈ decl.requests, request.joined ∉ decl.domainTags := by
  have hdistinct : model.differenceTags.Nodup ↔
      ∀ first ∈ decl.requests, ∀ second ∈ decl.requests, ¬ first.MovesTo second := by
    rw [differenceTags_eq hok, List.nodup_map_iff_inj_on hrequests]
    constructor
    · intro hinj first hfirst second hsecond hmoves
      obtain rfl := hinj first hfirst second hsecond hmoves.joined_eq
      exact first.not_movesTo_self hmoves
    · intro hnone first hfirst second hsecond hjoined
      rcases Decl.Request.joined_eq_iff.mp hjoined with heq | hmoves | hmoves
      · exact heq
      · exact absurd hmoves (hnone first hfirst second hsecond)
      · exact absurd hmoves (hnone second hsecond first hfirst)
  have hundeclared : (∀ tag ∈ model.differenceTags, tag ∉ model.domains.map (·.tag)) ↔
      ∀ request ∈ decl.requests, request.joined ∉ decl.domainTags := by
    obtain ⟨-, hmodels, -⟩ := compile_eq_ok_iff.mp hok
    rw [differenceTags_eq hok, map_tag_models (mapM_eq_ok_iff.mpr hmodels), List.forall_mem_map]
  rw [← hdistinct, ← hundeclared]
  exact ⟨fun h => ⟨h.distinct, h.undeclared⟩, fun h => ⟨h.1, h.2⟩⟩

/-- Where no joint can be read in a declared tag, differences have fresh tags. -/
theorem differencesFresh_of_not_hasJoint (hok : Universe.compile decl plan = .ok model)
    (hrequests : decl.requests.Nodup) (hjoint : ∀ tag ∈ decl.domainTags, ¬ Decl.HasJoint tag) :
    model.DifferencesFresh := by
  obtain ⟨hordered, -, -⟩ := compile_eq_ok_iff.mp hok
  refine (differencesFresh_iff hok hrequests).mpr ⟨?_, ?_⟩
  · intro first _ second hsecond hmoves
    exact hjoint second.source (hordered.declares second hsecond).1 hmoves.hasJoint
  · intro request _ hdeclared
    exact hjoint request.joined hdeclared request.hasJoint_joined

end Compilation

/-- **When differences are fresh.** For distinct requests, they are exactly if no request moves the
joint of another and no joined tag is declared. In particular they are if no joint can be read in a
declared tag. -/
theorem Universe.differencesFresh_iff_and_of_no_joint {decl : Decl.Universe} {plan : Plan}
    {model : Universe} (hok : Universe.compile decl plan = .ok model)
    (hrequests : decl.requests.Nodup) :
    (model.DifferencesFresh ↔
      (∀ first ∈ decl.requests, ∀ second ∈ decl.requests, ¬ first.MovesTo second) ∧
        ∀ request ∈ decl.requests, request.joined ∉ decl.domainTags) ∧
    ((∀ tag ∈ decl.domainTags, ¬ Decl.HasJoint tag) → model.DifferencesFresh) :=
  ⟨Compilation.differencesFresh_iff hok hrequests,
    Compilation.differencesFresh_of_not_hasJoint hok hrequests⟩

/-- Two domains whose tags come close to a joint, one at its end and one at its beginning. -/
def nearlyJoined : Decl.Universe := ⟨[⟨"a_top", [], []⟩, ⟨"to_b", [], []⟩], [⟨"a_top", "to_b"⟩]⟩

theorem Universe.differencesFresh_iff_and_of_no_joint_nearlyJoined : ∃ model,
    Universe.compile nearlyJoined {} = .ok model ∧ nearlyJoined.requests.Nodup ∧
      (∀ tag ∈ nearlyJoined.domainTags, ¬ Decl.HasJoint tag) ∧ model.DifferencesFresh := by
  obtain ⟨model, hmodel⟩ : ∃ model, Universe.compile nearlyJoined {} = .ok model := by
    have hacyclic : Lineage.checkAcyclic nearlyJoined.requests = .ok () := by cbv
    rw [Universe.compile, hacyclic]
    exact ⟨_, rfl⟩
  have hrequests : nearlyJoined.requests.Nodup := by decide
  have hjoint : ∀ tag ∈ nearlyJoined.domainTags, ¬ Decl.HasJoint tag := by decide
  exact ⟨model, hmodel, hrequests, hjoint,
    (Universe.differencesFresh_iff_and_of_no_joint hmodel hrequests).2 hjoint⟩

/-- Two requests that are joined to one tag, which is also that of a declared domain. -/
def jointly : Decl.Universe :=
  ⟨[⟨"a", [], []⟩, ⟨"b_to_c", [], []⟩, ⟨"a_to_b", [], []⟩, ⟨"c", [], []⟩, ⟨"a_to_b_to_c", [], []⟩],
    [⟨"a", "b_to_c"⟩, ⟨"a_to_b", "c"⟩]⟩

/-- The universe compiles and its requests are distinct, but its differences share a tag, which is
that of a domain. -/
theorem exists_compile_jointly_not_differencesFresh : ∃ model,
    Universe.compile jointly {} = .ok model ∧ jointly.requests.Nodup ∧
      ¬ model.differenceTags.Nodup ∧
      ∃ tag ∈ model.differenceTags, tag ∈ model.domains.map (·.tag) := by
  obtain ⟨model, hmodel, htags, hdomains⟩ : ∃ model, Universe.compile jointly {} = .ok model ∧
      model.differenceTags = ["a_to_b_to_c", "a_to_b_to_c"] ∧
      model.domains.map (·.tag) = jointly.domainTags := by
    have hacyclic : Lineage.checkAcyclic jointly.requests = .ok () := by cbv
    rw [Universe.compile, hacyclic]
    exact ⟨_, rfl, rfl, rfl⟩
  refine ⟨model, hmodel, by decide, ?_, "a_to_b_to_c", ?_, ?_⟩
  · rw [htags]
    decide
  · rw [htags]
    exact List.mem_cons_self
  · rw [hdomains]
    decide

end DomainEvolution

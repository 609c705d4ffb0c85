import DomainEvolution.Lineage
import Mathlib.Data.List.Chain
import Mathlib.Data.List.Nodup
import Mathlib.Data.List.TakeWhile
import Mathlib.Logic.Relation

/-!
# The walk through a lineage

A walk keeps a path, the tags it has entered, and for each tag on the path the destinations that are
still to be followed. One round leaves the innermost tag, skips a destination that is finished,
enters one that is new, or closes a cycle. The invariant says what is known in between: the path
follows requests, it holds the pending tags once each, and nothing that is finished leads to a tag
that is not or back to itself.
-/

namespace DomainEvolution.Lineage

/-- The destination of some request whose source is the first tag. -/
def Edge (requests : List Decl.Request) (tag next : String) : Prop :=
  ∃ request ∈ requests, request.source = tag ∧ request.destination = next

/-- A destination of the first tag in a graph. -/
def Follows (graph : Edges) (tag next : String) : Prop := next ∈ graph.getD tag []

/-- A closed chain along a relation, with no tag repeated but the one at its two ends. -/
structure IsCycle (follows : String → String → Prop) (chain : List String) : Prop where
  length : 2 ≤ chain.length
  closed : chain.head? = chain.getLast?
  distinct : chain.dropLast.Nodup
  linked : chain.IsChain follows

/-- The destinations of a tag are those of its requests, in request order. -/
theorem getD_edges (requests : List Decl.Request) (tag : String) :
    (edges requests).getD tag [] =
      (requests.filter (·.source == tag)).map (·.destination) := by
  induction requests with
  | nil => simp [edges]
  | cons request rest ih =>
    unfold edges at ih ⊢
    rw [List.foldr_cons, Std.HashMap.getD_insert]
    by_cases h : request.source = tag
    · subst h
      simp [ih]
    · simp [h, ih]

/-- The graph of a list of requests has their edges. -/
theorem follows_edges (requests : List Decl.Request) :
    Follows (edges requests) = Edge requests := by
  funext tag next
  simp [Follows, Edge, getD_edges, and_assoc]

/-- The first tag of a cycle leads back to itself. -/
theorem IsCycle.transGen {follows : String → String → Prop} {chain : List String}
    (h : IsCycle follows chain) : ∃ tag, Relation.TransGen follows tag tag := by
  obtain ⟨hlength, hclosed, -, hlinked⟩ := h
  match chain, hlength with
  | tag :: next :: rest, _ =>
    obtain ⟨hfirst, hrest⟩ := List.isChain_cons_cons.mp hlinked
    have hlast : (next :: rest).getLast (List.cons_ne_nil _ _) = tag := by
      simpa [List.getLast?_cons_cons, List.getLast?_eq_getLast_of_ne_nil, eq_comm] using hclosed
    have hback : Relation.ReflTransGen follows next tag :=
      List.relationReflTransGen_of_exists_isChain_cons rest hrest hlast
    exact ⟨tag, .head' hfirst hback⟩

/-- What a chain holds from one of its tags on begins with that tag. -/
theorem exists_dropWhile_eq_cons {chain : List String} {next : String} (hmem : next ∈ chain) :
    ∃ rest, chain.dropWhile (· != next) = next :: rest := by
  have hne : chain.dropWhile (· != next) ≠ [] := by
    intro hnil
    simpa using List.dropWhile_eq_nil_iff.mp hnil next hmem
  obtain ⟨first, rest, hcons⟩ := List.exists_cons_of_ne_nil hne
  have hfirst := List.head_dropWhile_not (· != next) hne
  simp only [hcons, List.head_cons, bne_eq_false_iff_eq] at hfirst
  exact ⟨rest, hfirst ▸ hcons⟩

/-- A chain without repetition that leads back to one of its tags closes a cycle from there on. -/
theorem isCycle_dropWhile {follows : String → String → Prop} {chain : List String}
    (hdistinct : chain.Nodup) (hlinked : chain.IsChain follows) {next : String}
    (hmem : next ∈ chain) (hlast : ∀ last ∈ chain.getLast?, follows last next) :
    IsCycle follows (chain.dropWhile (· != next) ++ [next]) := by
  have hsuffix := List.dropWhile_suffix (l := chain) (· != next)
  obtain ⟨rest, hrest⟩ := exists_dropWhile_eq_cons hmem
  rw [hrest] at hsuffix ⊢
  have hback : ∀ last ∈ (next :: rest).getLast?, follows last next := by
    obtain ⟨before, rfl⟩ := hsuffix
    rwa [List.getLast?_append_of_ne_nil _ (List.cons_ne_nil _ _)] at hlast
  refine ⟨?_, ?_, ?_, ?_⟩
  · simp
  · rw [List.getLast?_concat]
    rfl
  · rw [List.dropLast_concat]
    exact hdistinct.sublist hsuffix.sublist
  · refine List.isChain_append.mpr ⟨hlinked.suffix hsuffix, .singleton next, ?_⟩
    intro last hlastMem first hfirst
    cases hfirst
    exact hback last hlastMem

namespace Walk

/-- The tags on the path, innermost first. -/
def tags (walk : Walk) : List String := walk.path.map (·.1)

/-- The tag is marked as one from which all that can be reached has been seen. -/
def Finished (walk : Walk) (tag : String) : Prop := walk.marks[tag]? = some .finished

/-- What one round makes of a walk whose path is not empty. -/
inductive Round (graph : Edges) : Walk → Except (List String) Walk → Prop where
  | leave {tag : String} {outer : List (String × List String)}
      {marks : Std.HashMap String Mark} :
      Round graph ⟨(tag, []) :: outer, marks⟩ (.ok ⟨outer, marks.insert tag .finished⟩)
  | skip {tag next : String} {later : List String} {outer : List (String × List String)}
      {marks : Std.HashMap String Mark} (hnext : marks[next]? = some .finished) :
      Round graph ⟨(tag, next :: later) :: outer, marks⟩ (.ok ⟨(tag, later) :: outer, marks⟩)
  | close {tag next : String} {later : List String} {outer : List (String × List String)}
      {marks : Std.HashMap String Mark} (hnext : marks[next]? = some .pending) :
      Round graph ⟨(tag, next :: later) :: outer, marks⟩
        (.error (chainTo next ⟨(tag, later) :: outer, marks⟩))
  | enter {tag next : String} {later : List String} {outer : List (String × List String)}
      {marks : Std.HashMap String Mark} (hnext : marks[next]? = none) :
      Round graph ⟨(tag, next :: later) :: outer, marks⟩
        (.ok (enter graph next ⟨(tag, later) :: outer, marks⟩))

/-- A step on a path that is not empty is a round. -/
theorem round_step (graph : Edges) {walk : Walk} (hpath : walk.path ≠ []) :
    Round graph walk (walk.step graph) := by
  obtain ⟨path, marks⟩ := walk
  match path with
  | [] => exact absurd rfl hpath
  | (tag, []) :: outer => exact .leave
  | (tag, next :: later) :: outer =>
    simp only [step]
    split
    · exact .skip ‹_›
    · exact .close ‹_›
    · exact .enter ‹_›

/-- What is known of a walk. The innermost tag may be about to follow one destination that it has
not entered yet; all its other destinations are still to be followed or finished. A tag further out
has moreover followed the next one further in. -/
structure Sound (graph : Edges) (due : Option String) (walk : Walk) : Prop where
  distinct : walk.tags.Nodup
  pending : ∀ tag, walk.marks[tag]? = some .pending ↔ tag ∈ walk.tags
  later : ∀ entry ∈ walk.path, ∀ next ∈ entry.2, Follows graph entry.1 next
  innermost : ∀ entry ∈ walk.path.head?, ∀ next, Follows graph entry.1 next →
    next ∈ entry.2 ∨ walk.Finished next ∨ next ∈ due
  linked : walk.path.IsChain fun inner outer => Follows graph outer.1 inner.1 ∧
    ∀ next, Follows graph outer.1 next →
      next ∈ outer.2 ∨ walk.Finished next ∨ next = inner.1
  closed : ∀ tag next, walk.Finished tag → Follows graph tag next → walk.Finished next
  acyclic : ∀ tag, walk.Finished tag → ¬ Relation.TransGen (Follows graph) tag tag

variable {graph : Edges} {walk : Walk}

/-- Nothing is known before the first root, and nothing has to be. -/
theorem sound_start (graph : Edges) : Sound graph none start where
  distinct := List.nodup_nil
  pending tag := by simp [start, tags]
  later := by simp [start]
  innermost := by simp [start]
  linked := .nil
  closed tag next htag := by simp [start, Finished] at htag
  acyclic tag htag := by simp [start, Finished] at htag

/-- All that a finished tag leads to is finished. -/
theorem Sound.finished_of_reflTransGen {due : Option String} (h : walk.Sound graph due)
    {tag next : String} (htag : walk.Finished tag)
    (hreach : Relation.ReflTransGen (Follows graph) tag next) : walk.Finished next := by
  induction hreach with
  | refl => exact htag
  | tail _ hedge ih => exact h.closed _ _ ih hedge

/-- Entering a new tag finishes none. -/
theorem finished_enter {tag : String} (hnew : walk.marks[tag]? = none) (other : String) :
    (walk.enter graph tag).Finished other ↔ walk.Finished other := by
  unfold Finished enter
  rw [Std.HashMap.getElem?_insert]
  by_cases h : tag = other
  · subst h
    simp [hnew]
  · simp [h]

/-- The tag that is due may be entered, if it is new. -/
theorem Sound.enter {tag : String} (h : walk.Sound graph (some tag))
    (hnew : walk.marks[tag]? = none)
    (hedge : ∀ outer ∈ walk.path.head?, Follows graph outer.1 tag) :
    (walk.enter graph tag).Sound graph none where
  distinct := by
    refine List.nodup_cons.mpr ⟨fun hmem => ?_, h.distinct⟩
    have hpending := (h.pending tag).mpr hmem
    rw [hnew] at hpending
    cases hpending
  pending other := by
    have hcons : other ∈ (walk.enter graph tag).tags ↔ other = tag ∨ other ∈ walk.tags :=
      List.mem_cons
    rw [hcons, ← h.pending other, Walk.enter, Std.HashMap.getElem?_insert]
    by_cases htag : tag = other
    · simp [htag]
    · simp [htag, Ne.symm htag]
  later entry hentry := by
    rcases List.mem_cons.mp hentry with rfl | hentry
    · exact fun next hnext => hnext
    · exact h.later entry hentry
  innermost entry hentry next hnext := by
    cases hentry
    exact Or.inl hnext
  linked := by
    simp only [finished_enter hnew]
    refine List.isChain_cons.mpr ⟨fun outer houter => ⟨hedge outer houter, ?_⟩, h.linked⟩
    intro next hnext
    rcases h.innermost outer houter next hnext with hlater | hfinished | hdue
    · exact Or.inl hlater
    · exact Or.inr (Or.inl hfinished)
    · exact Or.inr (Or.inr (Option.some.inj hdue).symm)
  closed := by
    simp only [finished_enter hnew]
    exact h.closed
  acyclic := by
    simp only [finished_enter hnew]
    exact h.acyclic

/-- The innermost tag takes up its next destination, which is then due. -/
theorem Sound.takeUp {tag next : String} {later : List String}
    {outer : List (String × List String)} {marks : Std.HashMap String Mark}
    (h : Sound graph none ⟨(tag, next :: later) :: outer, marks⟩) :
    Sound graph (some next) ⟨(tag, later) :: outer, marks⟩ where
  distinct := h.distinct
  pending := h.pending
  later entry hentry := by
    rcases List.mem_cons.mp hentry with rfl | hentry
    · exact fun other hother =>
        h.later (tag, next :: later) List.mem_cons_self other (List.mem_cons_of_mem _ hother)
    · exact h.later entry (List.mem_cons_of_mem _ hentry)
  innermost entry hentry other hother := by
    cases hentry
    rcases h.innermost (tag, next :: later) rfl other hother with hlater | hfinished | hdue
    · rcases List.mem_cons.mp hlater with rfl | hlater
      · exact Or.inr (Or.inr rfl)
      · exact Or.inl hlater
    · exact Or.inr (Or.inl hfinished)
    · cases hdue
  linked := List.isChain_cons.mpr (List.isChain_cons.mp h.linked)
  closed := h.closed
  acyclic := h.acyclic

/-- A destination that is finished is not due any more. -/
theorem Sound.settleDue {next : String} (h : walk.Sound graph (some next))
    (hnext : walk.Finished next) : walk.Sound graph none :=
  { h with
    innermost := by
      intro entry hentry other hother
      rcases h.innermost entry hentry other hother with hlater | hfinished | hdue
      · exact Or.inl hlater
      · exact Or.inr (Or.inl hfinished)
      · rw [← Option.some.inj hdue]
        exact Or.inr (Or.inl hnext) }

/-- Leaving a tag finishes it and no other. -/
theorem finished_insert {outer : List (String × List String)}
    {marks : Std.HashMap String Mark} {tag : String} (other : String) :
    Finished ⟨outer, marks.insert tag .finished⟩ other ↔
      other = tag ∨ marks[other]? = some .finished := by
  unfold Finished
  rw [Std.HashMap.getElem?_insert]
  by_cases h : tag = other
  · simp [h]
  · simp [h, Ne.symm h]

/-- When a tag has no destination left to follow, all of them are finished. -/
theorem Sound.finished_of_follows {tag next : String} {outer : List (String × List String)}
    {marks : Std.HashMap String Mark} (h : Sound graph none ⟨(tag, []) :: outer, marks⟩)
    (hnext : Follows graph tag next) : marks[next]? = some .finished := by
  rcases h.innermost (tag, []) rfl next hnext with hlater | hfinished | hdue
  · cases hlater
  · exact hfinished
  · cases hdue

/-- A tag that is on the path does not lead back to itself once all that it leads to is finished. -/
theorem Sound.not_transGen {tag : String} {outer : List (String × List String)}
    {marks : Std.HashMap String Mark} (h : Sound graph none ⟨(tag, []) :: outer, marks⟩) :
    ¬ Relation.TransGen (Follows graph) tag tag := by
  intro hcycle
  obtain ⟨next, hnext, hback⟩ := Relation.TransGen.head'_iff.mp hcycle
  have hfinished : marks[tag]? = some .finished :=
    h.finished_of_reflTransGen (h.finished_of_follows hnext) hback
  have hpending : marks[tag]? = some .pending := (h.pending tag).mpr List.mem_cons_self
  rw [hpending] at hfinished
  cases hfinished

/-- A tag all of whose destinations were followed may be left. -/
theorem Sound.leave {tag : String} {outer : List (String × List String)}
    {marks : Std.HashMap String Mark} (h : Sound graph none ⟨(tag, []) :: outer, marks⟩) :
    Sound graph none ⟨outer, marks.insert tag .finished⟩ where
  distinct := (List.nodup_cons.mp h.distinct).2
  pending other := by
    have hnotMem : tag ∉ tags ⟨outer, marks.insert tag .finished⟩ :=
      (List.nodup_cons.mp h.distinct).1
    have hcons : other ∈ tags ⟨(tag, []) :: outer, marks⟩ ↔
        other = tag ∨ other ∈ tags ⟨outer, marks.insert tag .finished⟩ := List.mem_cons
    have hother := h.pending other
    rw [hcons] at hother
    simp only [Std.HashMap.getElem?_insert]
    by_cases htag : tag = other
    · subst htag
      simp [hnotMem]
    · simpa [htag, Ne.symm htag] using hother
  later entry hentry := h.later entry (List.mem_cons_of_mem _ hentry)
  innermost entry hentry next hnext := by
    have hhead := (List.isChain_cons.mp h.linked).1 entry hentry
    rcases hhead.2 next hnext with hlater | hfinished | hinner
    · exact Or.inl hlater
    · exact Or.inr (Or.inl ((finished_insert next).mpr (Or.inr hfinished)))
    · exact Or.inr (Or.inl ((finished_insert next).mpr (Or.inl hinner)))
  linked := by
    refine (List.isChain_cons.mp h.linked).2.imp fun inner entry hentry =>
      ⟨hentry.1, fun next hnext => ?_⟩
    rcases hentry.2 next hnext with hlater | hfinished | hinner
    · exact Or.inl hlater
    · exact Or.inr (Or.inl ((finished_insert next).mpr (Or.inr hfinished)))
    · exact Or.inr (Or.inr hinner)
  closed other next hother hnext := by
    refine (finished_insert next).mpr (Or.inr ?_)
    rcases (finished_insert other).mp hother with rfl | hother
    · exact h.finished_of_follows hnext
    · exact h.closed other next hother hnext
  acyclic other hother := by
    rcases (finished_insert other).mp hother with rfl | hother
    · exact h.not_transGen
    · exact h.acyclic other hother

/-- A round keeps the invariant. -/
theorem Sound.round {next : Walk} (h : walk.Sound graph none)
    (hround : Round graph walk (.ok next)) : next.Sound graph none := by
  cases hround with
  | leave => exact h.leave
  | skip hnext => exact h.takeUp.settleDue hnext
  | enter hnext =>
    refine h.takeUp.enter hnext fun outer houter => ?_
    cases houter
    exact h.later _ List.mem_cons_self _ List.mem_cons_self

/-- The chain that closes is a cycle. -/
theorem Sound.isCycle {chain : List String} (h : walk.Sound graph none)
    (hround : Round graph walk (.error chain)) : IsCycle (Follows graph) chain := by
  cases hround with
  | @close tag next later outer marks hnext =>
    have hmem : next ∈ tag :: outer.map (·.1) := (h.pending next).mp hnext
    have hedge : Follows graph tag next := h.later _ List.mem_cons_self _ List.mem_cons_self
    have hlinked : (tag :: outer.map (·.1)).IsChain fun inner outer => Follows graph outer inner :=
      (List.isChain_map (·.1)).mpr (h.linked.imp fun _ _ hboth => hboth.1)
    have hdistinct : (tag :: outer.map (·.1)).Nodup := h.distinct
    refine isCycle_dropWhile (List.nodup_reverse.mpr hdistinct) (List.isChain_reverse.mpr hlinked)
      (List.mem_reverse.mpr hmem) fun last hlast => ?_
    rw [List.getLast?_reverse] at hlast
    rwa [← Option.some.inj hlast]

end Walk

end DomainEvolution.Lineage

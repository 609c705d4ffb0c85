import DomainEvolution.Proofs.LineageWalk
import Mathlib.Algebra.BigOperators.Group.Finset.Basic
import Mathlib.Algebra.GroupWithZero.Nat

/-!
# Acyclic lineages

Every round either follows a request or leaves a tag, and neither happens twice. The rounds that
remain are therefore known from the start, and the budget covers them. A walk from every source ends
with the chain of a cycle, or with every source finished; and then no tag leads back to itself.
-/

namespace DomainEvolution.Lineage

open Relation

/-- No tag leads back to itself. -/
def Acyclic (requests : List Decl.Request) : Prop := ∀ tag, ¬ TransGen (Edge requests) tag tag

/-- Fewer requests lead nowhere else. -/
theorem Acyclic.of_subset {requests fewer : List Decl.Request} (h : Acyclic requests)
    (hfewer : fewer ⊆ requests) : Acyclic fewer := by
  have hedge : Edge fewer ≤ Edge requests := by
    rintro source destination ⟨request, hrequest, hedge⟩
    exact ⟨request, hfewer hrequest, hedge⟩
  exact fun tag hcycle => h tag (TransGen.mono hedge tag tag hcycle)

/-- The tags that requests mention. -/
def mentioned (requests : List Decl.Request) : Finset String :=
  (requests.map (·.source) ++ requests.map (·.destination)).toFinset

namespace Walk

/-- The tag was entered. -/
def Marked (walk : Walk) (tag : String) : Prop := walk.marks[tag]? ≠ none

/-- The rounds that remain: one for each destination still to be followed, and one to leave each
tag. Of the known tags, those that were not entered have all of theirs ahead. -/
def remaining (graph : Edges) (known : Finset String) (walk : Walk) : Nat :=
  (walk.path.map (·.2.length + 1)).sum +
    ∑ tag ∈ known with walk.marks[tag]? = none, ((graph.getD tag []).length + 1)

variable {graph : Edges} {known : Finset String} {walk : Walk}

/-- Entering a new tag takes no round. -/
theorem remaining_enter {tag : String} (hmem : tag ∈ known) (hnew : walk.marks[tag]? = none) :
    (walk.enter graph tag).remaining graph known = walk.remaining graph known := by
  have hfresh : (known.filter fun other => (walk.enter graph tag).marks[other]? = none) =
      (known.filter fun other => walk.marks[other]? = none).erase tag := by
    ext other
    rw [Finset.mem_erase, Finset.mem_filter, Finset.mem_filter, enter, Std.HashMap.getElem?_insert]
    by_cases h : tag = other
    · simp [h]
    · simp [h, Ne.symm h]
  have hsum := Finset.add_sum_erase (known.filter fun other => walk.marks[other]? = none)
    (fun other => (graph.getD other []).length + 1) (Finset.mem_filter.mpr ⟨hmem, hnew⟩)
  have hpath : ((walk.enter graph tag).path.map (·.2.length + 1)).sum =
      (graph.getD tag []).length + 1 + (walk.path.map (·.2.length + 1)).sum := by
    simp [enter]
  unfold remaining
  rw [hfresh, hpath]
  omega

/-- Every round is one of those that remain. -/
theorem remaining_round {next : Walk} (hsound : walk.Sound graph none)
    (hknown : ∀ tag next, Follows graph tag next → next ∈ known)
    (hround : Round graph walk (.ok next)) :
    next.remaining graph known + 1 = walk.remaining graph known := by
  cases hround with
  | @leave tag outer marks =>
    have hpending : marks[tag]? = some .pending := (hsound.pending tag).mpr List.mem_cons_self
    have hfresh (other : String) :
        (marks.insert tag .finished)[other]? = none ↔ marks[other]? = none := by
      rw [Std.HashMap.getElem?_insert]
      by_cases h : tag = other
      · subst h
        simp [hpending]
      · simp [h]
    simp only [remaining, hfresh, List.map_cons, List.sum_cons, List.length_nil]
    omega
  | skip =>
    simp only [remaining, List.map_cons, List.sum_cons, List.length_cons]
    omega
  | enter hnext =>
    rw [remaining_enter (hknown _ _ (hsound.later _ List.mem_cons_self _ List.mem_cons_self)) hnext]
    simp only [remaining, List.map_cons, List.sum_cons, List.length_cons]
    omega

/-- What was entered stays so, whatever mark is set. -/
theorem Marked.insert {tag other : String} {mark : Mark} {path path' : List (String × List String)}
    {marks : Std.HashMap String Mark} (h : Marked ⟨path, marks⟩ other) :
    Marked ⟨path', marks.insert tag mark⟩ other := by
  unfold Marked
  rw [Std.HashMap.getElem?_insert]
  split
  · exact Option.some_ne_none _
  · exact h

/-- A mark enters no tag but its own. -/
theorem Marked.of_insert {tag other : String} {mark : Mark}
    {path path' : List (String × List String)} {marks : Std.HashMap String Mark}
    (h : Marked ⟨path', marks.insert tag mark⟩ other) :
    tag = other ∨ Marked ⟨path, marks⟩ other := by
  unfold Marked at h ⊢
  rw [Std.HashMap.getElem?_insert] at h
  split at h
  · exact Or.inl (beq_iff_eq.mp ‹_›)
  · exact Or.inr h

/-- What was entered stays so. -/
theorem Marked.round {next : Walk} {tag : String} (h : walk.Marked tag)
    (hround : Round graph walk (.ok next)) : next.Marked tag := by
  cases hround with
  | leave => exact h.insert
  | skip => exact h
  | enter => exact Marked.insert h

/-- A tag that was entered is finished once the path is empty. -/
theorem Sound.finished_of_marked (h : walk.Sound graph none) (hpath : walk.path = [])
    {tag : String} (htag : walk.Marked tag) : walk.Finished tag := by
  unfold Marked at htag
  cases hmark : walk.marks[tag]? with
  | none => exact absurd hmark htag
  | some mark =>
    cases mark with
    | pending =>
      have hmem := (h.pending tag).mp hmark
      rw [tags, hpath] at hmem
      cases hmem
    | finished => exact hmark

/-- A tag that is not finished when the path is empty was not entered. -/
theorem Sound.eq_none_of_not_finished (h : walk.Sound graph none) (hpath : walk.path = [])
    {tag : String} (htag : ¬ walk.Finished tag) : walk.marks[tag]? = none := by
  by_contra hmarked
  exact htag (h.finished_of_marked hpath hmarked)

/-- A root may be entered, if it is new. -/
theorem Sound.enter_root (h : walk.Sound graph none) (hpath : walk.path = []) {root : String}
    (hnew : walk.marks[root]? = none) : (walk.enter graph root).Sound graph none := by
  refine Sound.enter { h with innermost := ?_ } hnew ?_
  · simp [hpath]
  · simp [hpath]

/-- A walk whose path is not empty has a round to take. -/
theorem remaining_pos (hpath : walk.path ≠ []) : 0 < walk.remaining graph known := by
  obtain ⟨entry, outer, hcons⟩ := List.exists_cons_of_ne_nil hpath
  rw [remaining, hcons, List.map_cons, List.sum_cons]
  omega

end Walk

/-- How a walk ends that has to enter the given roots and takes no more rounds than its budget. -/
def Outcome.Correct (graph : Edges) (known : Finset String) (roots : List String) (budget : Nat)
    (walk : Walk) : Outcome → Prop
  | .settled left next => next.path = [] ∧ next.Sound graph none ∧
    (∀ tag, walk.Marked tag ∨ tag ∈ roots → next.Marked tag) ∧
    left + walk.remaining graph known = budget + next.remaining graph known
  | .cycle chain => IsCycle (Follows graph) chain
  | .exhausted => False

section Correct

variable {graph : Edges} {known : Finset String}

/-- A correct end of the rest of a walk is a correct end of the walk. -/
theorem Outcome.Correct.of_rest {outcome : Outcome} {roots rest : List String}
    {budget left : Nat} {walk next : Walk} (h : outcome.Correct graph known rest left next)
    (hmarked : ∀ tag, walk.Marked tag ∨ tag ∈ roots → next.Marked tag ∨ tag ∈ rest)
    (hrounds : left + walk.remaining graph known = budget + next.remaining graph known) :
    outcome.Correct graph known roots budget walk := by
  cases outcome with
  | settled unused last =>
    obtain ⟨hpath, hsound, hlast, hunused⟩ := h
    refine ⟨hpath, hsound, fun tag htag => hlast tag (hmarked tag htag), ?_⟩
    omega
  | cycle chain => exact h
  | exhausted => exact h

/-- A walk whose path is empty has ended. -/
theorem settled_correct {budget : Nat} {walk : Walk} (hpath : walk.path = [])
    (hsound : walk.Sound graph none) :
    (Outcome.settled budget walk).Correct graph known [] budget walk :=
  ⟨hpath, hsound, fun _ h => h.resolve_right List.not_mem_nil, rfl⟩

variable (hknown : ∀ tag next, Follows graph tag next → next ∈ known)
include hknown

/-- Rounds are taken until the path is empty or a cycle is closed. -/
theorem settle_correct {budget : Nat} {walk : Walk} (hsound : walk.Sound graph none)
    (hbudget : walk.remaining graph known ≤ budget) :
    (settle graph budget walk).Correct graph known [] budget walk := by
  induction budget generalizing walk with
  | zero =>
    have hpath : walk.path = [] := by
      by_contra hne
      have hpos : 0 < walk.remaining graph known := Walk.remaining_pos hne
      omega
    rw [settle, if_pos (List.isEmpty_iff.mpr hpath)]
    exact settled_correct hpath hsound
  | succ budget ih =>
    unfold settle
    split
    · exact settled_correct (List.isEmpty_iff.mp ‹_›) hsound
    · rename_i hpath
      have hround := Walk.round_step graph fun hnil => hpath (List.isEmpty_iff.mpr hnil)
      split
      · rename_i chain hstep
        rw [hstep] at hround
        exact hsound.isCycle hround
      · rename_i next hstep
        rw [hstep] at hround
        have hremaining := Walk.remaining_round hsound hknown hround
        refine (ih (hsound.round hround) (by omega)).of_rest ?_ (by omega)
        exact fun tag htag => htag.imp_left (·.round hround)

/-- A root is walked from unless it is finished; either way it is entered. -/
theorem visit_correct {root : String} {budget : Nat} {walk : Walk} (hroot : root ∈ known)
    (hpath : walk.path = []) (hsound : walk.Sound graph none)
    (hbudget : walk.remaining graph known ≤ budget) :
    (visit graph root budget walk).Correct graph known [root] budget walk := by
  unfold visit
  split
  · rename_i hfinished
    refine ⟨hpath, hsound, ?_, rfl⟩
    rintro tag (htag | htag)
    · exact htag
    · rw [List.mem_singleton.mp htag, Walk.Marked, beq_iff_eq.mp hfinished]
      exact Option.some_ne_none _
  · rename_i hfinished
    have hnew := hsound.eq_none_of_not_finished hpath (mt beq_iff_eq.mpr hfinished)
    have hentered := hsound.enter_root hpath hnew
    have hremaining : (walk.enter graph root).remaining graph known =
        walk.remaining graph known := Walk.remaining_enter hroot hnew
    refine (settle_correct hknown hentered (by omega)).of_rest ?_ (by omega)
    rintro tag htag
    left
    unfold Walk.Marked Walk.enter
    rw [Std.HashMap.getElem?_insert]
    split
    · exact Option.some_ne_none _
    · rename_i hne
      refine htag.resolve_right fun hmem => hne ?_
      rw [List.mem_singleton.mp hmem, beq_self_eq_true]

/-- All roots are entered, one after the other. -/
theorem visitAll_correct {roots : List String} {budget : Nat} {walk : Walk}
    (hroots : ∀ root ∈ roots, root ∈ known) (hpath : walk.path = [])
    (hsound : walk.Sound graph none) (hbudget : walk.remaining graph known ≤ budget) :
    (visitAll graph roots budget walk).Correct graph known roots budget walk := by
  induction roots generalizing budget walk with
  | nil => exact settled_correct hpath hsound
  | cons root roots ih =>
    have hvisit := visit_correct hknown (hroots root List.mem_cons_self) hpath hsound hbudget
    unfold visitAll
    cases hcase : visit graph root budget walk with
    | settled left next =>
      rw [hcase] at hvisit
      obtain ⟨hnextPath, hnextSound, hmarked, hleft⟩ := hvisit
      refine (ih (fun other hother => hroots other (List.mem_cons_of_mem _ hother)) hnextPath
        hnextSound (by omega)).of_rest ?_ hleft
      rintro tag (htag | htag)
      · exact Or.inl (hmarked tag (Or.inl htag))
      · rcases List.mem_cons.mp htag with rfl | htag
        · exact Or.inl (hmarked tag (Or.inr (List.mem_singleton.mpr rfl)))
        · exact Or.inr htag
    | cycle chain =>
      rw [hcase] at hvisit
      exact hvisit
    | exhausted =>
      rw [hcase] at hvisit
      exact hvisit

end Correct

/-! ### The whole walk -/

/-- A destination is mentioned. -/
theorem mem_mentioned_of_follows {requests : List Decl.Request} {tag next : String}
    (h : Follows (edges requests) tag next) : next ∈ mentioned requests := by
  rw [follows_edges] at h
  obtain ⟨request, hrequest, -, rfl⟩ := h
  exact List.mem_toFinset.mpr (List.mem_append_right _ (List.mem_map_of_mem hrequest))

/-- A whole walk takes one round for each request, and one for each tag. -/
theorem remaining_start (requests : List Decl.Request) :
    Walk.start.remaining (edges requests) (mentioned requests) =
      requests.length + (mentioned requests).card := by
  have hcount (tag : String) :
      ((edges requests).getD tag []).length = ((requests.map (·.source)).count tag) := by
    rw [getD_edges, List.length_map, List.count_eq_countP, List.countP_map,
      List.countP_eq_length_filter]
    rfl
  have hsum : ∑ tag ∈ mentioned requests, (requests.map (·.source)).count tag =
      requests.length := by
    have hmem : ∀ tag ∈ (↑(requests.map (·.source)) : Multiset String),
        tag ∈ mentioned requests := by
      intro tag htag
      exact List.mem_toFinset.mpr (List.mem_append_left _ htag)
    simpa using Multiset.sum_count_eq_card hmem
  simp [Walk.remaining, Walk.start, hcount, Finset.sum_add_distrib, hsum]

/-- The budget covers the whole walk. -/
theorem remaining_start_le (requests : List Decl.Request) :
    Walk.start.remaining (edges requests) (mentioned requests) ≤ roundBudget requests := by
  have hcard : (mentioned requests).card ≤
      (requests.map (·.source) ++ requests.map (·.destination)).length :=
    List.toFinset_card_le _
  rw [List.length_append, List.length_map, List.length_map] at hcard
  rw [remaining_start, roundBudget]
  omega

/-- The walk from every source ends as it should, if the budget covers it. -/
theorem visitAll_edges_correct_of_le (requests : List Decl.Request) {budget : Nat}
    (hbudget : Walk.start.remaining (edges requests) (mentioned requests) ≤ budget) :
    (visitAll (edges requests) (requests.map (·.source)) budget Walk.start).Correct
      (edges requests) (mentioned requests) (requests.map (·.source)) budget Walk.start := by
  refine visitAll_correct ?_ ?_ rfl (Walk.sound_start _) hbudget
  · exact fun _ _ hnext => mem_mentioned_of_follows hnext
  · exact fun root hroot => List.mem_toFinset.mpr (List.mem_append_left _ hroot)

/-- The walk from every source ends as it should. -/
theorem visitAll_edges_correct (requests : List Decl.Request) :
    (visitAll (edges requests) (requests.map (·.source)) (roundBudget requests)
      Walk.start).Correct (edges requests) (mentioned requests) (requests.map (·.source))
        (roundBudget requests) Walk.start :=
  visitAll_edges_correct_of_le requests (remaining_start_le requests)

/-- A chain that the walk finds is a cycle of the requests. -/
theorem isCycle_of_cycle?_eq_some {requests : List Decl.Request} {chain : List String}
    (h : cycle? requests = some chain) : IsCycle (Edge requests) chain := by
  have hcorrect := visitAll_edges_correct requests
  unfold cycle? at h
  split at h
  · rename_i found hfound
    rw [hfound] at hcorrect
    cases h
    rw [← follows_edges]
    exact hcorrect
  · cases h

/-- If the walk finds no cycle, no tag leads back to itself. -/
theorem acyclic_of_cycle?_eq_none {requests : List Decl.Request} (h : cycle? requests = none) :
    Acyclic requests := by
  have hcorrect := visitAll_edges_correct requests
  unfold cycle? at h
  split at h
  · cases h
  · rename_i hnot
    cases houtcome : visitAll (edges requests) (requests.map (·.source)) (roundBudget requests)
        Walk.start with
    | settled left last =>
      rw [houtcome] at hcorrect
      obtain ⟨hpath, hsound, hmarked, -⟩ := hcorrect
      intro tag hcycle
      obtain ⟨next, ⟨request, hrequest, rfl, -⟩, -⟩ := TransGen.head'_iff.mp hcycle
      have hfinished := hsound.finished_of_marked hpath
        (hmarked request.source (Or.inr (List.mem_map_of_mem hrequest)))
      have hacyclic := hsound.acyclic _ hfinished
      rw [follows_edges] at hacyclic
      exact hacyclic hcycle
    | cycle chain => exact absurd houtcome (hnot chain)
    | exhausted =>
      rw [houtcome] at hcorrect
      exact hcorrect.elim

/-- The walk finds no cycle exactly when there is none. -/
theorem cycle?_eq_none_iff_acyclic {requests : List Decl.Request} :
    cycle? requests = none ↔ Acyclic requests := by
  refine ⟨acyclic_of_cycle?_eq_none, fun hacyclic => ?_⟩
  by_contra hcycle
  obtain ⟨chain, hchain⟩ := Option.ne_none_iff_exists'.mp hcycle
  obtain ⟨tag, htag⟩ := (isCycle_of_cycle?_eq_some hchain).transGen
  exact hacyclic tag htag

/-- **Requests are accepted exactly when no domain is its own ancestor**, and a refusal shows a
cycle. -/
theorem checkAcyclic_ok_iff_acyclic_and_error_isCycle (requests : List Decl.Request) :
    (checkAcyclic requests = .ok () ↔ Acyclic requests) ∧
      ∀ error, checkAcyclic requests = .error error →
        ∃ chain, error = .cyclicTransform chain ∧ IsCycle (Edge requests) chain := by
  unfold checkAcyclic
  cases hcycle : cycle? requests with
  | none =>
    refine ⟨iff_of_true rfl (acyclic_of_cycle?_eq_none hcycle), fun error herror => ?_⟩
    cases herror
  | some chain =>
    have hisCycle := isCycle_of_cycle?_eq_some hcycle
    obtain ⟨tag, htag⟩ := hisCycle.transGen
    refine ⟨iff_of_false (by simp) fun hacyclic => hacyclic tag htag, fun error herror => ?_⟩
    cases herror
    exact ⟨chain, rfl, hisCycle⟩

/-- Two ways to one domain are no cycle. -/
example : checkAcyclic [⟨"a", "b"⟩, ⟨"a", "c"⟩, ⟨"b", "d"⟩, ⟨"c", "d"⟩] = .ok () := by
  cbv

/-- A chain into a cycle: the walk names the cycle alone. -/
theorem checkAcyclic_error_isCycle_tail :
    checkAcyclic [⟨"a", "b"⟩, ⟨"b", "c"⟩, ⟨"c", "b"⟩] = .error (.cyclicTransform ["b", "c", "b"]) ∧
      ∃ chain, CompileError.cyclicTransform ["b", "c", "b"] = .cyclicTransform chain ∧
        IsCycle (Edge [⟨"a", "b"⟩, ⟨"b", "c"⟩, ⟨"c", "b"⟩]) chain := by
  have herror : checkAcyclic [⟨"a", "b"⟩, ⟨"b", "c"⟩, ⟨"c", "b"⟩] =
      .error (.cyclicTransform ["b", "c", "b"]) := by
    cbv
  exact ⟨herror, (checkAcyclic_ok_iff_acyclic_and_error_isCycle _).2 _ herror⟩

end DomainEvolution.Lineage

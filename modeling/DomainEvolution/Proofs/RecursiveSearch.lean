import DomainEvolution.Proofs.AcyclicLineage

/-!
# The recursive search

A depth-first search is told most simply by recursion: to visit a tag, visit its destinations one
after the other, with the tag on the path. The walk with its explicit path does the same rounds
without the recursion. What a call has still to do stands in the frame of its tag, so the rounds of
a call leave the frames below untouched, and the walk finds the very chain that the search finds.
-/

namespace DomainEvolution.Lineage

open Relation

/-- The destinations of the requests from a tag, in request order. -/
def destinations (requests : List Decl.Request) (tag : String) : List String :=
  (requests.filter (·.source == tag)).map (·.destination)

/-- The number of requests whose source is not on a path. A search that puts a tag on its path
follows the requests of the tag. -/
def offPath (requests : List Decl.Request) (path : List String) : Nat :=
  requests.countP (·.source ∉ path)

/-- A tag that is put on the path takes its requests along. -/
theorem offPath_append (requests : List Decl.Request) {path : List String} {tag : String}
    (hnew : tag ∉ path) :
    offPath requests (path ++ [tag]) + (destinations requests tag).length =
      offPath requests path := by
  unfold offPath destinations
  rw [List.length_map]
  induction requests with
  | nil => rfl
  | cons request rest ih =>
    rw [List.countP_cons, List.countP_cons, List.filter_cons]
    by_cases htag : request.source = tag
    · have hsource : request.source ∉ path := htag ▸ hnew
      rw [if_pos (beq_iff_eq.mpr htag), if_neg (by simp [htag]), if_pos (by simp [hsource]),
        List.length_cons]
      omega
    · have hsame : request.source ∉ path ++ [tag] ↔ request.source ∉ path := by simp [htag]
      rw [if_neg (mt beq_iff_eq.mp htag)]
      simp only [hsame]
      omega

mutual

/-- Visits a tag below those on the path. What comes out is the tags that are finished then, or the
chain of a cycle. -/
def search (requests : List Decl.Request) (path finished : List String) (tag : String) :
    Except (List String) (List String) :=
  if tag ∈ finished then .ok finished
  else if tag ∈ path then .error (path.dropWhile (· != tag) ++ [tag])
  else do
    let finished ← searchAll requests (path ++ [tag]) finished (destinations requests tag)
    return tag :: finished
termination_by 2 * offPath requests path + 1
decreasing_by
  have := offPath_append requests ‹tag ∉ path›
  omega

/-- Visits tags one after the other, as long as no cycle is found. -/
def searchAll (requests : List Decl.Request) (path finished : List String) :
    List String → Except (List String) (List String)
  | [] => .ok finished
  | tag :: tags => do
    let finished ← search requests path finished tag
    searchAll requests path finished tags
termination_by tags => 2 * offPath requests path + 2 * tags.length

end

/-- What a search for a cycle among requests comes to, one root after the other. -/
def searchRoots (requests : List Decl.Request) : Except (List String) (List String) :=
  searchAll requests [] [] (requests.map (·.source))

/-- The marks say which tags are finished and which are on a path. -/
structure Shows (marks : Std.HashMap String Mark) (path finished : List String) : Prop where
  finished : ∀ tag, marks[tag]? = some .finished ↔ tag ∈ finished
  pending : ∀ tag, marks[tag]? = some .pending ↔ tag ∈ path

namespace Shows

variable {marks : Std.HashMap String Mark} {path finished : List String}

/-- A tag without mark is neither finished nor on the path. -/
theorem eq_none (h : Shows marks path finished) {tag : String} (hfinished : tag ∉ finished)
    (hpath : tag ∉ path) : marks[tag]? = none := by
  cases hmark : marks[tag]? with
  | none => rfl
  | some mark =>
    cases mark with
    | pending => exact absurd ((h.pending tag).mp hmark) hpath
    | finished => exact absurd ((h.finished tag).mp hmark) hfinished

/-- A tag that is entered comes to the end of the path. -/
theorem enter (h : Shows marks path finished) {tag : String} (hfinished : tag ∉ finished) :
    Shows (marks.insert tag .pending) (path ++ [tag]) finished where
  finished other := by
    rw [Std.HashMap.getElem?_insert, ← h.finished other]
    by_cases htag : tag = other
    · subst htag
      have hmark : marks[tag]? ≠ some .finished := mt (h.finished tag).mp hfinished
      simp [hmark]
    · simp [htag]
  pending other := by
    rw [Std.HashMap.getElem?_insert, List.mem_append, List.mem_singleton, ← h.pending other]
    by_cases htag : tag = other
    · simp [htag]
    · simp [htag, Ne.symm htag]

/-- A tag that is left is finished. -/
theorem leave {tag : String} (h : Shows marks (path ++ [tag]) finished) (hpath : tag ∉ path) :
    Shows (marks.insert tag .finished) path (tag :: finished) where
  finished other := by
    rw [Std.HashMap.getElem?_insert, List.mem_cons, ← h.finished other]
    by_cases htag : tag = other
    · simp [htag]
    · simp [htag, Ne.symm htag]
  pending other := by
    have hother := h.pending other
    rw [List.mem_append, List.mem_singleton] at hother
    rw [Std.HashMap.getElem?_insert]
    by_cases htag : tag = other
    · subst htag
      simp [hpath]
    · simpa [htag, Ne.symm htag] using hother

end Shows

namespace Walk

/-- Some rounds lead from one walk to another. -/
def Leads (graph : Edges) : Walk → Walk → Prop :=
  ReflTransGen fun walk next => Round graph walk (.ok next)

/-- The rounds from a walk on come to what a search comes to: they leave the given frames on the
path and finish what the search finishes, or they close the chain that it finds. -/
def ComesTo (graph : Edges) (walk : Walk) (frames : List (String × List String))
    (path : List String) : Except (List String) (List String) → Prop
  | .ok finished => ∃ marks, Leads graph walk ⟨frames, marks⟩ ∧ Shows marks path finished
  | .error chain => ∃ last, Leads graph walk last ∧ Round graph last (.error chain)

variable {graph : Edges} {walk : Walk} {frames : List (String × List String)}
  {path : List String}

/-- What comes after a round is what the rounds come to. -/
theorem ComesTo.of_round {next : Walk} {result : Except (List String) (List String)}
    (hround : Round graph walk (.ok next)) (h : next.ComesTo graph frames path result) :
    walk.ComesTo graph frames path result := by
  cases result with
  | ok finished =>
    obtain ⟨marks, hleads, hshows⟩ := h
    exact ⟨marks, hleads.head hround, hshows⟩
  | error chain =>
    obtain ⟨last, hleads, hlast⟩ := h
    exact ⟨last, hleads.head hround, hlast⟩

/-- Two searches in a row: the rounds of the second one begin where the first one ends. -/
theorem ComesTo.bind {frames' : List (String × List String)} {path' : List String}
    {first : Except (List String) (List String)}
    {second : List String → Except (List String) (List String)}
    (hfirst : walk.ComesTo graph frames path first)
    (hsecond : ∀ marks finished, Shows marks path finished →
      ComesTo graph ⟨frames, marks⟩ frames' path' (second finished)) :
    walk.ComesTo graph frames' path' (first >>= second) := by
  cases first with
  | error chain => exact hfirst
  | ok finished =>
    obtain ⟨marks, hleads, hshows⟩ := hfirst
    have hrest := hsecond marks finished hshows
    change walk.ComesTo graph frames' path' (second finished)
    cases hresult : second finished with
    | ok finished' =>
      rw [hresult] at hrest
      obtain ⟨marks', hleads', hshows'⟩ := hrest
      exact ⟨marks', hleads.trans hleads', hshows'⟩
    | error chain =>
      rw [hresult] at hrest
      obtain ⟨last, hleads', hlast⟩ := hrest
      exact ⟨last, hleads.trans hleads', hlast⟩

/-- Once all destinations of a tag are searched, the tag is left. -/
theorem ComesTo.leave {tag : String} {result : Except (List String) (List String)}
    (h : walk.ComesTo graph ((tag, []) :: frames) (path ++ [tag]) result) (hpath : tag ∉ path) :
    walk.ComesTo graph frames path (result >>= fun finished => .ok (tag :: finished)) := by
  refine h.bind fun marks finished hshows => ?_
  exact ⟨_, .single .leave, hshows.leave hpath⟩

end Walk

section Simulation

variable (requests : List Decl.Request)

mutual

/-- The rounds of one destination come to what its visit comes to. The frame of the tag that has the
destination is the innermost one, and it keeps the later destinations. -/
theorem comesTo_search {path finished later : List String} {tag next : String}
    {outer : List (String × List String)} {marks : Std.HashMap String Mark}
    (hpath : path = (tag :: outer.map (·.1)).reverse) (hshows : Shows marks path finished) :
    Walk.ComesTo (edges requests) ⟨(tag, next :: later) :: outer, marks⟩ ((tag, later) :: outer)
      path (search requests path finished next) := by
  rw [search]
  split
  · have hround : Walk.Round (edges requests) ⟨(tag, next :: later) :: outer, marks⟩
        (.ok ⟨(tag, later) :: outer, marks⟩) := .skip ((hshows.finished next).mpr ‹_›)
    exact ⟨marks, .single hround, hshows⟩
  · split
    · have hround : Walk.Round (edges requests) ⟨(tag, next :: later) :: outer, marks⟩
          (.error (Walk.chainTo next ⟨(tag, later) :: outer, marks⟩)) :=
        .close ((hshows.pending next).mpr ‹_›)
      rw [hpath]
      exact ⟨_, .refl, hround⟩
    · have hround : Walk.Round (edges requests) ⟨(tag, next :: later) :: outer, marks⟩
          (.ok (Walk.enter (edges requests) next ⟨(tag, later) :: outer, marks⟩)) :=
        .enter (hshows.eq_none ‹_› ‹_›)
      have hinner : path ++ [next] =
          (next :: List.map (·.1) ((tag, later) :: outer)).reverse := by
        rw [hpath, List.reverse_cons (a := next)]
        rfl
      refine .of_round hround (.leave ?_ ‹_›)
      unfold Walk.enter
      rw [getD_edges]
      exact comesTo_searchAll hinner (hshows.enter ‹_›)
termination_by 2 * offPath requests path + 1
decreasing_by
  have := offPath_append requests ‹next ∉ path›
  simp only [destinations] at this
  omega

/-- The rounds of the destinations that a tag has left come to what their visits come to. -/
theorem comesTo_searchAll {path finished tags : List String} {tag : String}
    {outer : List (String × List String)} {marks : Std.HashMap String Mark}
    (hpath : path = (tag :: outer.map (·.1)).reverse) (hshows : Shows marks path finished) :
    Walk.ComesTo (edges requests) ⟨(tag, tags) :: outer, marks⟩ ((tag, []) :: outer) path
      (searchAll requests path finished tags) := by
  match tags with
  | [] =>
    rw [searchAll]
    exact ⟨marks, .refl, hshows⟩
  | next :: later =>
    rw [searchAll]
    refine (comesTo_search hpath hshows).bind fun marks' finished' hshows' => ?_
    exact comesTo_searchAll hpath hshows'
termination_by 2 * offPath requests path + 2 * tags.length

end

end Simulation

/-! ### The walk within its budget -/

/-- The end of a walk is what a search comes to, unless the budget was used up before. -/
def Outcome.Shows (result : Except (List String) (List String)) : Outcome → Prop
  | .settled _ walk => walk.path = [] ∧
    ∃ finished, result = .ok finished ∧ Lineage.Shows walk.marks [] finished
  | .cycle chain => result = .error chain
  | .exhausted => True

section Budget

variable {graph : Edges} {walk : Walk}

/-- A round is a step on a path that is not empty. -/
theorem Walk.step_of_round {result : Except (List String) Walk} (h : Round graph walk result) :
    walk.path ≠ [] ∧ walk.step graph = result := by
  cases h with
  | leave => exact ⟨List.cons_ne_nil _ _, rfl⟩
  | skip hnext | close hnext | enter hnext =>
    refine ⟨List.cons_ne_nil _ _, ?_⟩
    simp only [step, hnext]

/-- A round that leads on takes one from the budget. -/
theorem settle_succ_of_round {budget : Nat} {next : Walk}
    (hround : Walk.Round graph walk (.ok next)) :
    settle graph (budget + 1) walk = settle graph budget next := by
  obtain ⟨hpath, hstep⟩ := Walk.step_of_round hround
  rw [settle, if_neg (mt List.isEmpty_iff.mp hpath), hstep]

/-- No round is taken without a budget. -/
theorem settle_zero_of_round {result : Except (List String) Walk}
    (hround : Walk.Round graph walk result) : settle graph 0 walk = .exhausted := by
  obtain ⟨hpath, -⟩ := Walk.step_of_round hround
  rw [settle, if_neg (mt List.isEmpty_iff.mp hpath)]

/-- Some rounds on, the walk ends as it would have ended, unless the budget is used up. -/
theorem settle_of_leads {last : Walk} (h : walk.Leads graph last) (budget : Nat) :
    settle graph budget walk = .exhausted ∨
      ∃ left, settle graph budget walk = settle graph left last := by
  induction h using ReflTransGen.head_induction_on generalizing budget with
  | refl => exact Or.inr ⟨budget, rfl⟩
  | head hround _ ih =>
    cases budget with
    | zero => exact Or.inl (settle_zero_of_round hround)
    | succ budget =>
      rw [settle_succ_of_round hround]
      exact ih budget

/-- The rounds of a walk that come to what a search comes to, show it when they end. -/
theorem shows_settle {result : Except (List String) (List String)}
    (h : walk.ComesTo graph [] [] result) (budget : Nat) :
    (settle graph budget walk).Shows result := by
  cases result with
  | ok finished =>
    obtain ⟨marks, hleads, hshows⟩ := h
    rcases settle_of_leads hleads budget with hbudget | ⟨left, hleft⟩
    · rw [hbudget]
      trivial
    · have hsettled : settle graph left ⟨[], marks⟩ = .settled left ⟨[], marks⟩ := by
        cases left <;> rfl
      rw [hleft, hsettled]
      exact ⟨rfl, finished, rfl, hshows⟩
  | error chain =>
    obtain ⟨last, hleads, hlast⟩ := h
    rcases settle_of_leads hleads budget with hbudget | ⟨left, hleft⟩
    · rw [hbudget]
      trivial
    · rw [hleft]
      cases left with
      | zero =>
        rw [settle_zero_of_round hlast]
        trivial
      | succ left =>
        obtain ⟨hpath, hstep⟩ := Walk.step_of_round hlast
        rw [settle, if_neg (mt List.isEmpty_iff.mp hpath), hstep]
        rfl

end Budget

section Roots

variable (requests : List Decl.Request) {walk : Walk} {finished : List String}

/-- The walk from a root shows what the visit of the root comes to. -/
theorem shows_visit (hpath : walk.path = []) (hshows : Shows walk.marks [] finished)
    (root : String) (budget : Nat) :
    (visit (edges requests) root budget walk).Shows (search requests [] finished root) := by
  unfold visit
  rw [search]
  by_cases hroot : root ∈ finished
  · rw [if_pos (beq_iff_eq.mpr ((hshows.finished root).mpr hroot)), if_pos hroot]
    exact ⟨hpath, finished, rfl, hshows⟩
  · have hmark : walk.marks[root]? ≠ some .finished := mt (hshows.finished root).mp hroot
    rw [if_neg (mt beq_iff_eq.mp hmark), if_neg hroot, if_neg List.not_mem_nil]
    refine shows_settle (.leave ?_ List.not_mem_nil) budget
    unfold Walk.enter
    rw [hpath, getD_edges]
    exact comesTo_searchAll requests rfl (hshows.enter hroot)

/-- The walk from roots in turn shows what the search from them comes to. -/
theorem shows_visitAll (hpath : walk.path = []) (hshows : Shows walk.marks [] finished)
    (roots : List String) (budget : Nat) :
    (visitAll (edges requests) roots budget walk).Shows (searchAll requests [] finished roots) := by
  induction roots generalizing finished budget walk with
  | nil =>
    rw [searchAll]
    exact ⟨hpath, finished, rfl, hshows⟩
  | cons root roots ih =>
    have hvisit := shows_visit requests hpath hshows root budget
    rw [searchAll]
    unfold visitAll
    cases houtcome : visit (edges requests) root budget walk with
    | settled left next =>
      rw [houtcome] at hvisit
      obtain ⟨hnext, finished', hfinished', hshows'⟩ := hvisit
      rw [hfinished']
      exact ih hnext hshows' left
    | cycle chain =>
      rw [houtcome] at hvisit
      change search requests [] finished root = .error chain at hvisit
      rw [hvisit]
      rfl
    | exhausted => trivial

end Roots

/-- Before the first root, nothing is finished and nothing is on the path. -/
theorem shows_start : Shows Walk.start.marks [] [] where
  finished tag := by simp [Walk.start]
  pending tag := by simp [Walk.start]

/-- What the end of a walk says of the requests. It says nothing if the budget was used up. -/
def Outcome.answer? : Outcome → Option (Except CompileError Unit)
  | .settled _ _ => some (.ok ())
  | .cycle chain => some (.error (.cyclicTransform chain))
  | .exhausted => none

/-- The walk from every source in turn, within a budget. -/
def wholeWalk (requests : List Decl.Request) (budget : Nat) : Outcome :=
  visitAll (edges requests) (requests.map (·.source)) budget Walk.start

/-- What the recursive search says of the requests. -/
def checkBySearch (requests : List Decl.Request) : Except CompileError Unit :=
  match searchRoots requests with
  | .ok _ => .ok ()
  | .error chain => .error (.cyclicTransform chain)

/-- Within any budget that covers it, the whole walk says what the search says. -/
theorem answer?_wholeWalk (requests : List Decl.Request) {budget : Nat}
    (hbudget : requests.length + (mentioned requests).card ≤ budget) :
    (wholeWalk requests budget).answer? = some (checkBySearch requests) := by
  rw [← remaining_start] at hbudget
  have hcorrect := visitAll_edges_correct_of_le requests hbudget
  have hshows := shows_visitAll requests rfl shows_start (requests.map (·.source)) budget
  unfold wholeWalk checkBySearch searchRoots
  cases houtcome : visitAll (edges requests) (requests.map (·.source)) budget Walk.start with
  | settled left last =>
    rw [houtcome] at hshows
    obtain ⟨-, finished, hfinished, -⟩ := hshows
    rw [hfinished]
    rfl
  | cycle chain =>
    rw [houtcome] at hshows
    change searchAll requests [] [] (requests.map (·.source)) = .error chain at hshows
    rw [hshows]
    rfl
  | exhausted =>
    rw [houtcome] at hcorrect
    exact hcorrect.elim

/-- The budget of the check covers a round for each request and one for each tag. -/
theorem le_roundBudget (requests : List Decl.Request) :
    requests.length + (mentioned requests).card ≤ roundBudget requests := by
  rw [← remaining_start]
  exact remaining_start_le requests

/-- The check takes the answer of the whole walk within its own budget. -/
theorem answer?_roundBudget (requests : List Decl.Request) :
    (wholeWalk requests (roundBudget requests)).answer? = some (checkAcyclic requests) := by
  have hanswer := answer?_wholeWalk requests (le_roundBudget requests)
  unfold wholeWalk at hanswer ⊢
  unfold checkAcyclic cycle?
  cases houtcome : visitAll (edges requests) (requests.map (·.source)) (roundBudget requests)
      Walk.start with
  | settled left last => rfl
  | cycle chain => rfl
  | exhausted =>
    rw [houtcome] at hanswer
    cases hanswer

/-- **The walk reports what the recursive search reports**: it accepts the same requests, and it
refuses the others with the same chain. -/
theorem checkAcyclic_eq_checkBySearch (requests : List Decl.Request) :
    checkAcyclic requests = checkBySearch requests := by
  have hwalk := answer?_roundBudget requests
  have hsearch := answer?_wholeWalk requests (le_roundBudget requests)
  exact Option.some.inj (hwalk.symm.trans hsearch)

end DomainEvolution.Lineage

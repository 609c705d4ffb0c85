import DomainEvolution.Proofs.RecursiveSearch
import Mathlib.Data.List.Perm.Subperm

/-!
# The log of a walk

A log tells what a whole walk does, from the first root to its end. Between any two walks it
accounts for all that has changed: the tags it says were entered are new, the edges it says were
followed are taken off those that were ahead, and each round is one of those that remained. So no
tag is entered twice, no request is followed twice, and the rounds of all roots together are at most
one for each request and one for each tag. Without a cycle they are exactly that many.
-/

namespace DomainEvolution.Lineage

/-- What a walk does. -/
inductive Event where
  /-- A root is started, with a path. -/
  | start (root : String) (path : List (String × List String))
  /-- A tag is put on the path. -/
  | enter (tag : String)
  /-- A round is taken. -/
  | round
  /-- The next edge of a tag is followed. -/
  | follow (tag next : String)
  /-- A root is done without a cycle, with a path. -/
  | settle (path : List (String × List String))

namespace Event

/-- The tag that is put on the path. -/
def entered? : Event → Option String
  | .enter tag => some tag
  | _ => none

/-- The edge that is followed. -/
def followed? : Event → Option (String × String)
  | .follow tag next => some (tag, next)
  | _ => none

/-- The path between two roots. -/
def restingPath? : Event → Option (List (String × List String))
  | .start _ path => some path
  | .settle path => some path
  | _ => none

/-- Whether a round is taken. -/
def isRound : Event → Bool
  | .round => true
  | _ => false

end Event

namespace Walk

/-- What a round does with the innermost tag: it follows the next edge, or leaves the tag. -/
def roundLog (walk : Walk) : List Event :=
  match walk.path with
  | (tag, next :: _) :: _ => [.round, .follow tag next]
  | _ => [.round]

/-- What is entered on the way to a walk with a longer path. -/
def growth (walk next : Walk) : List Event :=
  if walk.path.length < next.path.length then next.tags.head?.toList.map .enter else []

end Walk

/-- The log of `settle`. -/
def settleLog (graph : Edges) : Nat → Walk → List Event
  | 0, _ => []
  | budget + 1, walk =>
    if walk.path.isEmpty then []
    else
      match walk.step graph with
      | .error _ => walk.roundLog
      | .ok next => walk.roundLog ++ walk.growth next ++ settleLog graph budget next

/-- The log of `visit`. -/
def visitLog (graph : Edges) (root : String) (budget : Nat) (walk : Walk) : List Event :=
  if walk.marks[root]? == some .finished then []
  else walk.growth (walk.enter graph root) ++ settleLog graph budget (walk.enter graph root)

/-- The log of `visitAll`. -/
def visitAllLog (graph : Edges) : List String → Nat → Walk → List Event
  | [], _, _ => []
  | root :: roots, budget, walk =>
    .start root walk.path :: visitLog graph root budget walk ++
      match visit graph root budget walk with
      | .settled left next => .settle next.path :: visitAllLog graph roots left next
      | _ => []

/-- The log of the whole walk, within a budget. -/
def walkLog (requests : List Decl.Request) (budget : Nat) : List Event :=
  visitAllLog (edges requests) (requests.map (·.source)) budget Walk.start

/-- The destinations that a log says were followed from a tag, in order. -/
def followedFrom (tag : String) (log : List Event) : List String :=
  ((log.filterMap Event.followed?).filter (·.1 == tag)).map (·.2)

/-- A log that wastes nothing: no tag is entered twice, and every request is followed at most once,
those of one source in their order; nothing is on the path between two roots; and there is at most a
round for each request and one for each tag. -/
structure Thrifty (requests : List Decl.Request) (log : List Event) : Prop where
  entered : (log.filterMap Event.entered?).Nodup
  followed : (log.filterMap Event.followed?).Subperm
    (requests.map fun r => (r.source, r.destination))
  ordered : ∀ tag, followedFrom tag log <+: destinations requests tag
  resting : ∀ path ∈ log.filterMap Event.restingPath?, path = []
  rounds : log.countP Event.isRound ≤ requests.length + (mentioned requests).card

/-- A log that leaves nothing out: every tag is entered, every request is followed, and the rounds
are exactly one for each request and one for each tag. -/
structure Exhaustive (requests : List Decl.Request) (log : List Event) : Prop where
  entered : ∀ tag ∈ mentioned requests, tag ∈ log.filterMap Event.entered?
  followed : ∀ tag, followedFrom tag log = destinations requests tag
  rounds : log.countP Event.isRound = requests.length + (mentioned requests).card

theorem followedFrom_append (tag : String) (log later : List Event) :
    followedFrom tag (log ++ later) = followedFrom tag log ++ followedFrom tag later := by
  simp [followedFrom]

namespace Walk

/-- The destinations of a tag that are still to be followed: all of them before the tag is entered,
and those in its frame while it is on the path. -/
def ahead (graph : Edges) (walk : Walk) (tag : String) : List String :=
  if walk.marks[tag]? = none then graph.getD tag [] else (walk.path.lookup tag).getD []

section Ahead

variable {graph : Edges} {path : List (String × List String)} {marks : Std.HashMap String Mark}
  {tag other : String} {later : List String}

/-- A tag on the path has ahead what its frame says. -/
theorem ahead_cons_self (hmarked : marks[tag]? ≠ none) :
    ahead graph ⟨(tag, later) :: path, marks⟩ tag = later := by
  simp only [ahead, if_neg hmarked, List.lookup_cons_self, Option.getD_some]

/-- A frame says nothing of other tags. -/
theorem ahead_cons_of_ne (hne : tag ≠ other) :
    ahead graph ⟨(tag, later) :: path, marks⟩ other = ahead graph ⟨path, marks⟩ other := by
  have hlookup : List.lookup other ((tag, later) :: path) = List.lookup other path := by
    rw [List.lookup_cons, beq_eq_false_iff_ne.mpr hne.symm]
  simp only [ahead, hlookup]

/-- A mark says nothing of other tags. -/
theorem ahead_insert_of_ne {mark : Mark} (hne : tag ≠ other) :
    ahead graph ⟨path, marks.insert tag mark⟩ other = ahead graph ⟨path, marks⟩ other := by
  simp only [ahead, Std.HashMap.getElem?_insert, beq_eq_false_iff_ne.mpr hne]
  rfl

/-- A tag that was entered and is not on the path has nothing ahead. -/
theorem ahead_eq_nil (hmarked : marks[tag]? ≠ none) (hpath : tag ∉ path.map (·.1)) :
    ahead graph ⟨path, marks⟩ tag = [] := by
  have hlookup : path.lookup tag = none := by
    rw [List.lookup_eq_none_iff]
    intro entry hentry
    have hne : tag ≠ entry.1 := fun heq => hpath (heq ▸ List.mem_map_of_mem hentry)
    simpa using hne
  simp only [ahead, if_neg hmarked, hlookup, Option.getD_none]

end Ahead

/-- A log accounts for all that changes from one walk to another. -/
structure Passage (graph : Edges) (known : Finset String) (walk : Walk) (log : List Event)
    (last : Walk) : Prop where
  entered : (log.filterMap Event.entered?).Nodup
  fresh : ∀ tag ∈ log.filterMap Event.entered?, walk.marks[tag]? = none ∧ last.Marked tag
  marked : ∀ tag, walk.Marked tag → last.Marked tag
  told : ∀ tag, last.Marked tag → walk.Marked tag ∨ tag ∈ log.filterMap Event.entered?
  followed : ∀ tag, walk.ahead graph tag = followedFrom tag log ++ last.ahead graph tag
  resting : ∀ path ∈ log.filterMap Event.restingPath?, path = []
  rounds : log.countP Event.isRound + last.remaining graph known = walk.remaining graph known

variable {graph : Edges} {known : Finset String} {walk next last : Walk} {log later : List Event}

/-- Nothing changes without an event. -/
theorem Passage.refl (walk : Walk) : walk.Passage graph known [] walk where
  entered := List.nodup_nil
  fresh := by simp
  marked _ h := h
  told _ h := Or.inl h
  followed _ := rfl
  resting := by simp
  rounds := by simp

/-- What changes in two stretches of a walk is told by their logs in a row. -/
theorem Passage.trans (h : walk.Passage graph known log next)
    (hlater : next.Passage graph known later last) :
    walk.Passage graph known (log ++ later) last where
  entered := by
    rw [List.filterMap_append, List.nodup_append]
    refine ⟨h.entered, hlater.entered, ?_⟩
    rintro tag htag _ hlaterTag rfl
    exact (h.fresh tag htag).2 (hlater.fresh tag hlaterTag).1
  fresh tag htag := by
    rw [List.filterMap_append, List.mem_append] at htag
    rcases htag with htag | htag
    · obtain ⟨hnew, hmarked⟩ := h.fresh tag htag
      exact ⟨hnew, hlater.marked tag hmarked⟩
    · obtain ⟨hnew, hmarked⟩ := hlater.fresh tag htag
      exact ⟨not_not.mp fun hold => h.marked tag hold hnew, hmarked⟩
  marked tag htag := hlater.marked tag (h.marked tag htag)
  told tag htag := by
    rw [List.filterMap_append, List.mem_append]
    rcases hlater.told tag htag with hnext | hlaterTag
    · exact (h.told tag hnext).imp_right Or.inl
    · exact Or.inr (Or.inr hlaterTag)
  followed tag := by
    rw [followedFrom_append, List.append_assoc, ← hlater.followed, ← h.followed]
  resting path hpath := by
    rw [List.filterMap_append, List.mem_append] at hpath
    exact hpath.elim (h.resting path) (hlater.resting path)
  rounds := by
    have hrounds := h.rounds
    have hlaterRounds := hlater.rounds
    rw [List.countP_append]
    omega

/-- Between two roots, nothing changes and the path is empty. -/
theorem Passage.rest {event : Event} {path : List (String × List String)}
    (hevent : event.restingPath? = some path) (hpath : path = []) (walk : Walk) :
    walk.Passage graph known [event] walk := by
  cases event with
  | start root path' | settle path' =>
    obtain rfl : path' = path := Option.some.inj hevent
    exact
      { entered := List.nodup_nil
        fresh := by simp [Event.entered?]
        marked := fun _ h => h
        told := fun _ h => Or.inl h
        followed := fun _ => rfl
        resting := by simpa [Event.restingPath?] using hpath
        rounds := by simp [Event.isRound] }
  | enter | round | follow => cases hevent

/-- A tag that is put on the path makes it longer. -/
theorem growth_enter (tag : String) (hlength : walk.path.length = next.path.length) :
    walk.growth (next.enter graph tag) = [.enter tag] := by
  have hlonger : walk.path.length < (next.enter graph tag).path.length := by
    rw [hlength]
    exact Nat.lt_succ_self _
  rw [growth, if_pos hlonger]
  rfl

/-- A round that enters no tag does not make the path longer. -/
theorem growth_eq_nil (hlength : next.path.length ≤ walk.path.length) : walk.growth next = [] :=
  if_neg (by omega)

/-- A new tag is entered. -/
theorem passage_enter {tag : String} (hmem : tag ∈ known) (hnew : walk.marks[tag]? = none) :
    walk.Passage graph known [.enter tag] (walk.enter graph tag) where
  entered := List.nodup_singleton tag
  fresh other hother := by
    obtain rfl : other = tag := List.mem_singleton.mp hother
    refine ⟨hnew, ?_⟩
    rw [Marked, enter, Std.HashMap.getElem?_insert_self]
    exact Option.some_ne_none _
  marked _ h := Marked.insert h
  told _ h := h.of_insert.symm.imp_right fun heq => List.mem_singleton.mpr heq.symm
  followed other := by
    change walk.ahead graph other = (walk.enter graph tag).ahead graph other
    by_cases htag : tag = other
    · subst htag
      have hmarked : (walk.marks.insert tag .pending)[tag]? ≠ none := by
        rw [Std.HashMap.getElem?_insert_self]
        exact Option.some_ne_none _
      rw [enter, ahead_cons_self hmarked, ahead, if_pos hnew]
    · rw [enter, ahead_cons_of_ne htag, ahead_insert_of_ne htag]
  resting := by simp [Event.restingPath?]
  rounds := by
    rw [remaining_enter hmem hnew]
    exact Nat.zero_add _

/-- Once the path is empty and all known tags were entered, no round remains. -/
theorem remaining_eq_zero (hpath : last.path = []) (hmarked : ∀ tag ∈ known, last.Marked tag) :
    last.remaining graph known = 0 := by
  have hnone : (known.filter fun tag => last.marks[tag]? = none) = ∅ :=
    Finset.filter_eq_empty_iff.mpr fun tag htag => hmarked tag htag
  rw [remaining, hpath, hnone]
  rfl

section Round

variable {tag : String} {outer : List (String × List String)} {marks : Std.HashMap String Mark}

/-- The next edge of the innermost tag is followed. -/
theorem passage_takeUp {next : String} {rest : List String}
    (hsound : Sound graph none ⟨(tag, next :: rest) :: outer, marks⟩) :
    Passage graph known ⟨(tag, next :: rest) :: outer, marks⟩ [.round, .follow tag next]
      ⟨(tag, rest) :: outer, marks⟩ where
  entered := List.nodup_nil
  fresh := by simp [Event.entered?]
  marked _ h := h
  told _ h := Or.inl h
  followed other := by
    by_cases htag : tag = other
    · subst htag
      have hpending : marks[tag]? = some .pending := (hsound.pending tag).mpr List.mem_cons_self
      have hmarked : marks[tag]? ≠ none := by simp [hpending]
      have hfollowed : followedFrom tag [.round, .follow tag next] = [next] := by
        simp [followedFrom, List.filterMap_cons, Event.followed?]
      rw [ahead_cons_self hmarked, ahead_cons_self hmarked, hfollowed]
      rfl
    · have hfollowed : followedFrom other [.round, .follow tag next] = [] := by
        simp [followedFrom, List.filterMap_cons, Event.followed?, htag]
      rw [ahead_cons_of_ne htag, ahead_cons_of_ne htag, hfollowed]
      rfl
  resting := by simp [Event.restingPath?]
  rounds := by
    have hone : [Event.round, .follow tag next].countP Event.isRound = 1 := rfl
    rw [hone]
    simp only [remaining, List.map_cons, List.sum_cons, List.length_cons]
    omega

/-- The innermost tag is left. -/
theorem passage_leave (hsound : Sound graph none ⟨(tag, []) :: outer, marks⟩)
    (hknown : ∀ tag next, Follows graph tag next → next ∈ known) :
    Passage graph known ⟨(tag, []) :: outer, marks⟩ [.round]
      ⟨outer, marks.insert tag .finished⟩ where
  entered := List.nodup_nil
  fresh := by simp [Event.entered?]
  marked _ h := Marked.insert h
  told other h := by
    rcases h.of_insert with rfl | h
    · have hpending : marks[tag]? = some .pending := (hsound.pending tag).mpr List.mem_cons_self
      exact Or.inl (by simp [Marked, hpending])
    · exact Or.inl h
  followed other := by
    change ahead graph _ other = ahead graph _ other
    by_cases htag : tag = other
    · subst htag
      have hpending : marks[tag]? = some .pending := (hsound.pending tag).mpr List.mem_cons_self
      have hmarked : marks[tag]? ≠ none := by simp [hpending]
      have hleft : (marks.insert tag Mark.finished)[tag]? ≠ none := by
        rw [Std.HashMap.getElem?_insert_self]
        exact Option.some_ne_none _
      have houter : tag ∉ outer.map (·.1) := (List.nodup_cons.mp hsound.distinct).1
      rw [ahead_cons_self hmarked, ahead_eq_nil hleft houter]
    · rw [ahead_cons_of_ne htag, ahead_insert_of_ne htag]
  resting := by simp [Event.restingPath?]
  rounds := by
    have hone : [Event.round].countP Event.isRound = 1 := rfl
    have hrounds := remaining_round hsound hknown .leave
    omega

end Round

/-- A round that leads on is told by its log. -/
theorem passage_round (hsound : walk.Sound graph none)
    (hknown : ∀ tag next, Follows graph tag next → next ∈ known)
    (hround : Round graph walk (.ok next)) :
    walk.Passage graph known (walk.roundLog ++ walk.growth next) next := by
  cases hround with
  | @leave tag outer marks =>
    have hshorter : outer.length ≤ ((tag, []) :: outer).length := Nat.le_succ _
    rw [growth_eq_nil hshorter, List.append_nil]
    exact passage_leave hsound hknown
  | @skip tag next rest outer marks _ =>
    have hsame : ((tag, rest) :: outer).length ≤ ((tag, next :: rest) :: outer).length := le_rfl
    rw [growth_eq_nil hsame, List.append_nil]
    exact passage_takeUp hsound
  | @enter tag next rest outer marks hnext =>
    have hedge := hsound.later _ List.mem_cons_self _ List.mem_cons_self
    have hsame : ((tag, next :: rest) :: outer).length = ((tag, rest) :: outer).length := rfl
    rw [growth_enter next hsame]
    exact (passage_takeUp hsound).trans (passage_enter (hknown _ _ hedge) hnext)

/-- So is the round that closes a cycle. -/
theorem exists_passage_of_close {chain : List String} (hsound : walk.Sound graph none)
    (hround : Round graph walk (.error chain)) :
    ∃ last, walk.Passage graph known walk.roundLog last := by
  cases hround with
  | close => exact ⟨_, passage_takeUp hsound⟩

end Walk

/-- A log leads from a walk to the walk in which it ends, which is the walk that is settled, if any
is. -/
def Outcome.Logged (graph : Edges) (known : Finset String) (walk : Walk) (log : List Event)
    (outcome : Outcome) : Prop :=
  ∃ last, walk.Passage graph known log last ∧
    ∀ left next, outcome = .settled left next → next = last ∧ last.path = [] ∧ last.Sound graph none

section Logged

variable {graph : Edges} {known : Finset String} {walk : Walk}
  (hknown : ∀ tag next, Follows graph tag next → next ∈ known)
include hknown

/-- The rounds until the path is empty are logged. -/
theorem logged_settle (hsound : walk.Sound graph none) (budget : Nat) :
    (settle graph budget walk).Logged graph known walk (settleLog graph budget walk) := by
  induction budget generalizing walk with
  | zero =>
    refine ⟨walk, .refl walk, fun left next hsettled => ?_⟩
    unfold settle at hsettled
    split at hsettled
    · cases hsettled
      exact ⟨rfl, List.isEmpty_iff.mp ‹_›, hsound⟩
    · cases hsettled
  | succ budget ih =>
    unfold settle settleLog
    split
    · refine ⟨walk, .refl walk, fun left next hsettled => ?_⟩
      cases hsettled
      exact ⟨rfl, List.isEmpty_iff.mp ‹_›, hsound⟩
    · rename_i hpath
      have hround := Walk.round_step graph fun hnil => hpath (List.isEmpty_iff.mpr hnil)
      cases hstep : walk.step graph with
      | error chain =>
        rw [hstep] at hround
        obtain ⟨last, hpassage⟩ : ∃ last, walk.Passage graph known walk.roundLog last :=
          Walk.exists_passage_of_close hsound hround
        exact ⟨last, hpassage, fun left next hsettled => by cases hsettled⟩
      | ok next =>
        rw [hstep] at hround
        obtain ⟨last, hpassage, hsettled⟩ := ih (hsound.round hround)
        exact ⟨last, (Walk.passage_round hsound hknown hround).trans hpassage, hsettled⟩

/-- The walk from a root is logged. -/
theorem logged_visit {root : String} (hroot : root ∈ known) (hpath : walk.path = [])
    (hsound : walk.Sound graph none) (budget : Nat) :
    (visit graph root budget walk).Logged graph known walk (visitLog graph root budget walk) := by
  unfold visit visitLog
  split
  · refine ⟨walk, .refl walk, fun left next hsettled => ?_⟩
    cases hsettled
    exact ⟨rfl, hpath, hsound⟩
  · rename_i hfinished
    have hnew := hsound.eq_none_of_not_finished hpath (mt beq_iff_eq.mpr hfinished)
    have hentered := hsound.enter_root hpath hnew
    obtain ⟨last, hpassage, hsettled⟩ := logged_settle hknown hentered budget
    rw [Walk.growth_enter root rfl]
    exact ⟨last, (Walk.passage_enter hroot hnew).trans hpassage, hsettled⟩

/-- The walk from roots in turn is logged. -/
theorem logged_visitAll {roots : List String} (hroots : ∀ root ∈ roots, root ∈ known)
    (hpath : walk.path = []) (hsound : walk.Sound graph none) (budget : Nat) :
    (visitAll graph roots budget walk).Logged graph known walk
      (visitAllLog graph roots budget walk) := by
  induction roots generalizing budget walk with
  | nil =>
    refine ⟨walk, .refl walk, fun left next hsettled => ?_⟩
    cases hsettled
    exact ⟨rfl, hpath, hsound⟩
  | cons root roots ih =>
    obtain ⟨hroot, hroots⟩ := List.forall_mem_cons.mp hroots
    obtain ⟨last, hpassage, hsettled⟩ := logged_visit hknown hroot hpath hsound budget
    have hstart : walk.Passage graph known [.start root walk.path] walk := .rest rfl hpath walk
    have hvisited := hstart.trans hpassage
    unfold visitAll visitAllLog
    cases hvisit : visit graph root budget walk with
    | settled left next =>
      obtain ⟨rfl, hnextPath, hnextSound⟩ := hsettled left next hvisit
      obtain ⟨last, hlast, hend⟩ := ih hroots hnextPath hnextSound left
      have hsettle : next.Passage graph known [.settle next.path] next := .rest rfl hnextPath next
      exact ⟨last, hvisited.trans (hsettle.trans hlast), hend⟩
    | cycle chain =>
      rw [List.append_nil]
      exact ⟨last, hvisited, fun left next hsettled => by cases hsettled⟩
    | exhausted =>
      rw [List.append_nil]
      exact ⟨last, hvisited, fun left next hsettled => by cases hsettled⟩

end Logged

/-! ### The log of the whole walk -/

section Whole

variable (requests : List Decl.Request)

/-- Before the first root, all requests are ahead. -/
theorem ahead_start (tag : String) :
    Walk.start.ahead (edges requests) tag = destinations requests tag := by
  have hnew : Walk.start.marks[tag]? = none := by simp [Walk.start]
  rw [Walk.ahead, if_pos hnew, getD_edges]
  rfl

/-- Among the second components of the pairs with one first component, each is found as often as its
pair. -/
theorem count_map_snd_filter (pairs : List (String × String)) (tag next : String) :
    ((pairs.filter (·.1 == tag)).map (·.2)).count next = pairs.count (tag, next) := by
  induction pairs with
  | nil => rfl
  | cons pair rest ih =>
    obtain ⟨source, destination⟩ := pair
    rw [List.filter_cons, List.count_cons]
    by_cases hsource : source = tag
    · have hpair : ((source, destination) == (tag, next)) = (destination == next) := by
        subst hsource
        rw [Bool.eq_iff_iff]
        simp
      rw [if_pos (beq_iff_eq.mpr hsource), List.map_cons, List.count_cons, ih, hpair]
    · have hpair : ((source, destination) == (tag, next)) = false := by simp [hsource]
      rw [if_neg (mt beq_iff_eq.mp hsource), ih, hpair]
      rfl

/-- Whoever follows the requests of each source in order and not beyond the last, follows no request
twice. -/
theorem subperm_of_isPrefix {log : List Event}
    (h : ∀ tag, followedFrom tag log <+: destinations requests tag) :
    (log.filterMap Event.followed?).Subperm (requests.map fun r => (r.source, r.destination)) := by
  rw [List.subperm_ext_iff]
  rintro ⟨tag, next⟩ -
  have hdestinations : destinations requests tag =
      ((requests.map fun r => (r.source, r.destination)).filter (·.1 == tag)).map (·.2) := by
    rw [List.filter_map, List.map_map]
    rfl
  have hcount := (h tag).sublist.count_le next
  rw [hdestinations] at hcount
  unfold followedFrom at hcount
  rwa [count_map_snd_filter, count_map_snd_filter] at hcount

/-- The whole walk is logged. -/
theorem logged_wholeWalk (budget : Nat) :
    (wholeWalk requests budget).Logged (edges requests) (mentioned requests) Walk.start
      (walkLog requests budget) := by
  have hknown (tag next : String) (hnext : Follows (edges requests) tag next) :
      next ∈ mentioned requests := mem_mentioned_of_follows hnext
  have hroots : ∀ root ∈ requests.map (·.source), root ∈ mentioned requests :=
    fun root hroot => List.mem_toFinset.mpr (List.mem_append_left _ hroot)
  exact logged_visitAll hknown hroots rfl (Walk.sound_start (edges requests)) budget

/-- Whatever the budget, the whole walk wastes nothing. -/
theorem thrifty_walkLog (budget : Nat) : Thrifty requests (walkLog requests budget) := by
  obtain ⟨last, hpassage, -⟩ := logged_wholeWalk requests budget
  have hordered (tag : String) :
      followedFrom tag (walkLog requests budget) <+: destinations requests tag := by
    rw [← ahead_start, hpassage.followed tag]
    exact List.prefix_append _ _
  have hrounds := hpassage.rounds
  rw [remaining_start] at hrounds
  exact
    { entered := hpassage.entered
      followed := subperm_of_isPrefix requests hordered
      ordered := hordered
      resting := hpassage.resting
      rounds := Nat.le.intro hrounds }

variable {requests}

/-- Without a cycle, the whole walk settles, and then every tag that is mentioned was entered. -/
theorem exists_wholeWalk_eq_settled (hacyclic : Acyclic requests) {budget : Nat}
    (hbudget : requests.length + (mentioned requests).card ≤ budget) :
    ∃ left last, wholeWalk requests budget = .settled left last ∧
      ∀ tag ∈ mentioned requests, last.Marked tag := by
  rw [← remaining_start] at hbudget
  have hcorrect := visitAll_edges_correct_of_le requests hbudget
  unfold wholeWalk
  cases houtcome : visitAll (edges requests) (requests.map (·.source)) budget Walk.start with
  | settled left last =>
    rw [houtcome] at hcorrect
    obtain ⟨hpath, hsound, hmarked, -⟩ := hcorrect
    refine ⟨left, last, rfl, fun tag htag => ?_⟩
    rcases List.mem_append.mp (List.mem_toFinset.mp htag) with hsource | hdestination
    · exact hmarked tag (Or.inr hsource)
    · obtain ⟨request, hrequest, rfl⟩ := List.mem_map.mp hdestination
      have hfollows : Follows (edges requests) request.source request.destination := by
        rw [follows_edges]
        exact ⟨request, hrequest, rfl, rfl⟩
      have hsource := hmarked request.source (Or.inr (List.mem_map_of_mem hrequest))
      have hfinished := hsound.closed _ _ (hsound.finished_of_marked hpath hsource) hfollows
      rw [Walk.Marked, hfinished]
      exact Option.some_ne_none _
  | cycle chain =>
    rw [houtcome] at hcorrect
    obtain ⟨tag, hcycle⟩ := IsCycle.transGen hcorrect
    rw [follows_edges] at hcycle
    exact absurd hcycle (hacyclic tag)
  | exhausted =>
    rw [houtcome] at hcorrect
    exact hcorrect.elim

/-- Nothing is ahead of a walk whose path is empty and that has entered all tags. -/
theorem ahead_eq_nil_of_marked {last : Walk} (hpath : last.path = [])
    (hmarked : ∀ tag ∈ mentioned requests, last.Marked tag) (tag : String) :
    last.ahead (edges requests) tag = [] := by
  by_cases htag : tag ∈ mentioned requests
  · exact Walk.ahead_eq_nil (hmarked tag htag) (by simp [hpath])
  · have hnone : destinations requests tag = [] := by
      rw [destinations, List.map_eq_nil_iff, List.filter_eq_nil_iff]
      intro request hrequest hsource
      rw [← beq_iff_eq.mp hsource] at htag
      exact htag (List.mem_toFinset.mpr (List.mem_append_left _ (List.mem_map_of_mem hrequest)))
    rw [Walk.ahead, getD_edges, hpath]
    split
    · exact hnone
    · rfl

/-- Without a cycle, the whole walk leaves nothing out. -/
theorem exhaustive_walkLog (hacyclic : Acyclic requests) {budget : Nat}
    (hbudget : requests.length + (mentioned requests).card ≤ budget) :
    Exhaustive requests (walkLog requests budget) := by
  obtain ⟨left, last, hend, hmarked⟩ := exists_wholeWalk_eq_settled hacyclic hbudget
  obtain ⟨_, hpassage, hsettled⟩ := logged_wholeWalk requests budget
  obtain ⟨rfl, hpath, -⟩ := hsettled left last hend
  have hrounds := hpassage.rounds
  rw [Walk.remaining_eq_zero hpath hmarked, remaining_start] at hrounds
  refine ⟨fun tag htag => ?_, fun tag => ?_, hrounds⟩
  · have hnew : ¬ Walk.start.Marked tag := by simp [Walk.Marked, Walk.start]
    exact (hpassage.told tag (hmarked tag htag)).resolve_left hnew
  · have hahead := ahead_eq_nil_of_marked hpath hmarked tag
    rw [← ahead_start, hpassage.followed tag, hahead, List.append_nil]

variable (requests)

/-- **The walk ends, and it wastes nothing**: no tag is entered twice and no request is followed
twice, whatever the roots share, and any budget of one round for each request and one for each tag
is enough to come to the result of the check. Without a cycle, that is just what it takes. -/
theorem thrifty_walkLog_and_answer?_wholeWalk :
    (∀ budget, Thrifty requests (walkLog requests budget)) ∧
    requests.length + (mentioned requests).card ≤ roundBudget requests ∧
    ∀ spare,
      (wholeWalk requests (requests.length + (mentioned requests).card + spare)).answer? =
        some (checkAcyclic requests) ∧
      (Acyclic requests → Exhaustive requests
        (walkLog requests (requests.length + (mentioned requests).card + spare))) := by
  refine ⟨thrifty_walkLog requests, le_roundBudget requests, fun spare => ⟨?_, ?_⟩⟩
  · have hspare := answer?_wholeWalk requests (Nat.le_add_right _ spare)
    have hbudget := answer?_wholeWalk requests (le_roundBudget requests)
    rw [hspare, ← hbudget]
    exact answer?_roundBudget requests
  · intro hacyclic
    exact exhaustive_walkLog hacyclic (Nat.le_add_right _ spare)

end Whole

/-- Two ways to one domain, from which a third request leads on. -/
def sharedTail : List Decl.Request := [⟨"a", "b"⟩, ⟨"a", "c"⟩, ⟨"b", "d"⟩, ⟨"c", "d"⟩, ⟨"d", "e"⟩]

/-- A tail that two ways share is walked once: five requests among five tags take ten rounds. -/
theorem thrifty_walkLog_and_answer?_wholeWalk_sharedTail :
    Acyclic sharedTail ∧ Thrifty sharedTail (walkLog sharedTail 10) ∧
      Exhaustive sharedTail (walkLog sharedTail 10) := by
  have hacyclic : Acyclic sharedTail := cycle?_eq_none_iff_acyclic.mp (by cbv)
  have hcount : sharedTail.length + (mentioned sharedTail).card + 0 = 10 := by decide
  obtain ⟨hthrifty, -, hrest⟩ := thrifty_walkLog_and_answer?_wholeWalk sharedTail
  have hexhaustive := (hrest 0).2 hacyclic
  rw [hcount] at hexhaustive
  exact ⟨hacyclic, hthrifty 10, hexhaustive⟩

end DomainEvolution.Lineage

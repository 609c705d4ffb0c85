import DomainEvolution.Proofs.FirstFailure
import DomainEvolution.Proofs.SideBySide
import Mathlib.Data.List.Perm.Basic
import Mathlib.Logic.Relation

/-!
# Pools of workers

A job waits at its place until an idle worker takes it up, and its outcome is kept at that place
once the worker is done. Nothing says which worker takes up which place, or who is done first. After
any number of steps the places that are done, in the order in which they were, and the places that
are not make up all places; so that every schedule does each job once, and none shows in the result.
-/

namespace DomainEvolution.Compilation

/-- The state of jobs that are done side by side: the places that wait, the workers at work with the
places that they took up, and the outcomes by place. -/
structure Pool (β : Type) where
  waiting : List ℕ
  working : List (ℕ × ℕ)
  slots : List (Option β)

namespace Pool

variable {α β : Type} {workers : ℕ} {job : α → β} {items : List α}

/-- All places wait, and no outcome is known. -/
def start (items : List α) : Pool β where
  waiting := List.range items.length
  working := []
  slots := items.map fun _ => none

/-- What can happen next: an idle worker takes up any place that waits, or any worker at work is
done with its place. -/
inductive Step (workers : ℕ) (job : α → β) (items : List α) : Pool β → Pool β → Prop
  | takeUp {worker place : ℕ} {before after : List ℕ} {working : List (ℕ × ℕ)}
      {slots : List (Option β)} (hworker : worker < workers)
      (hidle : worker ∉ working.map Prod.fst) :
      Step workers job items ⟨before ++ place :: after, working, slots⟩
        ⟨before ++ after, (worker, place) :: working, slots⟩
  | done {worker place : ℕ} {waiting : List ℕ} {before after : List (ℕ × ℕ)}
      {slots : List (Option β)} :
      Step workers job items ⟨waiting, before ++ (worker, place) :: after, slots⟩
        ⟨waiting, before ++ after, finish job items slots place⟩

/-- Any number of steps. -/
abbrev Run (workers : ℕ) (job : α → β) (items : List α) : Pool β → Pool β → Prop :=
  Relation.ReflTransGen (Step workers job items)

/-- The places in `finished` are done in this order, and these and the others are all places. -/
structure Accounts (job : α → β) (items : List α) (pool : Pool β) (finished : List ℕ) : Prop where
  places : (finished ++ pool.working.map Prod.snd ++ pool.waiting).Perm (List.range items.length)
  slots : pool.slots = finished.foldl (Compilation.finish job items) (items.map fun _ => none)

theorem accounts_start (job : α → β) (items : List α) : Accounts job items (start items) [] :=
  ⟨.refl _, rfl⟩

/-- A step leaves the account of the places in order, with one more place done or with none. -/
theorem Step.accounts {pool next : Pool β} (hstep : Step workers job items pool next)
    {finished : List ℕ} (h : Accounts job items pool finished) :
    ∃ finished', Accounts job items next finished' := by
  -- A place only moves on, from the waiting to the working ones and from there to the finished.
  cases hstep with
  | @takeUp _ place before after working _ _ _ =>
    refine ⟨finished, .trans ?_ h.places, h.slots⟩
    rw [List.perm_iff_count]
    intro p
    simp only [List.map_cons, List.count_append, List.count_cons]
    omega
  | @done _ place _ before after _ =>
    refine ⟨finished ++ [place], .trans ?_ h.places, ?_⟩
    · rw [List.perm_iff_count]
      intro p
      simp only [List.map_append, List.map_cons, List.count_append, List.count_cons,
        List.count_nil]
      omega
    · rw [List.foldl_append, ← h.slots]
      rfl

/-- After any run, the places that are done account for the outcomes. -/
theorem exists_accounts_of_run {pool : Pool β} (hrun : Run workers job items (start items) pool) :
    ∃ finished, Accounts job items pool finished := by
  induction hrun with
  | refl => exact ⟨[], accounts_start job items⟩
  | tail _ hstep ih =>
    obtain ⟨finished, h⟩ := ih
    exact hstep.accounts h

/-- When no place waits and no worker is at work, the places were done in some order, each once. -/
theorem exists_perm_of_run {slots : List (Option β)}
    (hrun : Run workers job items (start items) ⟨[], [], slots⟩) :
    ∃ finished : List ℕ, finished.Perm (List.range items.length) ∧
      slots = finished.foldl (finish job items) (items.map fun _ => none) := by
  obtain ⟨finished, h⟩ := exists_accounts_of_run hrun
  refine ⟨finished, ?_, h.slots⟩
  simpa using h.places

/-- The workers at work can all be done with their places. -/
theorem exists_run_idle (waiting : List ℕ) (working : List (ℕ × ℕ)) (slots : List (Option β)) :
    ∃ slots', Run workers job items ⟨waiting, working, slots⟩ ⟨waiting, [], slots'⟩ := by
  induction working generalizing slots with
  | nil => exact ⟨slots, .refl⟩
  | cons first rest ih =>
    obtain ⟨worker, place⟩ := first
    obtain ⟨slots', hrun⟩ := ih (finish job items slots place)
    have hstep : Step workers job items ⟨waiting, (worker, place) :: rest, slots⟩
        ⟨waiting, rest, finish job items slots place⟩ :=
      @Step.done _ _ _ _ _ worker place waiting [] rest slots
    exact ⟨slots', .head hstep hrun⟩

/-- With a worker there, no schedule gets stuck: from whatever state, all work can be done. -/
theorem exists_run_done (hworkers : 0 < workers) (waiting : List ℕ) (working : List (ℕ × ℕ))
    (slots : List (Option β)) :
    ∃ slots', Run workers job items ⟨waiting, working, slots⟩ ⟨[], [], slots'⟩ := by
  -- The workers at work are done first; then one worker alone does the next place that waits.
  induction waiting generalizing working slots with
  | nil => exact exists_run_idle [] working slots
  | cons place rest ih =>
    obtain ⟨slots', hidle⟩ := exists_run_idle (place :: rest) working slots
    obtain ⟨slots'', hdone⟩ := ih [(0, place)] slots'
    have hstep : Step workers job items ⟨place :: rest, [], slots'⟩ ⟨rest, [(0, place)], slots'⟩ :=
      @Step.takeUp _ _ _ _ _ 0 place [] rest [] slots' hworkers List.not_mem_nil
    exact ⟨slots'', hidle.trans (.head hstep hdone)⟩

end Pool

/-! ### Transforms -/

/-- The numbers of workers that a plan allows. A plan that asks for no workers leaves their number
open. -/
def Allows (plan : Plan) (workers : ℕ) : Prop :=
  0 < workers ∧ ∀ threads, plan.threads = some threads → 0 < threads → workers = threads

/-- The results that the computation of transforms can have under a plan: of one pair after the
other up to the first failure, of all pairs one after the other if there are no workers to be had,
and of every schedule of a pool of workers. -/
inductive Computed (plan : Plan) (pairs : List (Domain × Domain)) :
    Except CompileError (List Transform) → Prop
  | inOrder (hplan : plan.parallel = false ∨ pairs.length < 2) :
      Computed plan pairs (pairs.mapM between)
  | withoutWorkers (hparallel : plan.parallel = true) (hpairs : 2 ≤ pairs.length) :
      Computed plan pairs (firstFailure (pairs.map between))
  | byWorkers {workers : ℕ} {slots : List (Option (Except CompileError Transform))}
      (hparallel : plan.parallel = true) (hpairs : 2 ≤ pairs.length)
      (hworkers : Allows plan workers)
      (hrun : Pool.Run workers between pairs (Pool.start pairs) ⟨[], [], slots⟩) :
      Computed plan pairs (firstFailure (slots.filterMap id))

theorem exists_allows (plan : Plan) : ∃ workers, Allows plan workers := by
  unfold Allows
  cases plan.threads with
  | none => exact ⟨1, by simp⟩
  | some threads =>
    by_cases h : 0 < threads
    · exact ⟨threads, by simpa using h⟩
    · exact ⟨1, by simp [h]⟩

/-- In whatever order places are done, the result is that of the pairs one after the other. -/
theorem sideBySide_eq_mapM_of_perm {ε α β : Type} (job : α → Except ε β) (items : List α)
    {finished : List ℕ} (h : finished.Perm (List.range items.length)) :
    sideBySide job items finished = items.mapM job :=
  sideBySide_eq_mapM job items fun _ hi => h.mem_iff.mpr (List.mem_range.mpr hi)

/-- The result of a schedule is that of the pairs one after the other. -/
theorem firstFailure_eq_mapM_of_run {ε α β : Type} {workers : ℕ} {job : α → Except ε β}
    {items : List α} {slots : List (Option (Except ε β))}
    (hrun : Pool.Run workers job items (Pool.start items) ⟨[], [], slots⟩) :
    firstFailure (slots.filterMap id) = items.mapM job := by
  obtain ⟨finished, hperm, rfl⟩ := Pool.exists_perm_of_run hrun
  exact sideBySide_eq_mapM_of_perm job items hperm

/-- Whatever the plan and the schedule, the result is that of the pairs one after the other, and
some schedule has it. -/
theorem computed_iff_eq_mapM (plan : Plan) (pairs : List (Domain × Domain))
    (result : Except CompileError (List Transform)) :
    Computed plan pairs result ↔ result = pairs.mapM between := by
  constructor
  · intro h
    cases h with
    | inOrder => rfl
    | withoutWorkers => exact firstFailure_map between pairs
    | byWorkers _ _ _ hrun => exact firstFailure_eq_mapM_of_run hrun
  · rintro rfl
    by_cases hplan : plan.parallel = false ∨ pairs.length < 2
    · exact .inOrder hplan
    · obtain ⟨hparallel, hpairs⟩ := not_or.mp hplan
      obtain ⟨workers, hworkers⟩ := exists_allows plan
      obtain ⟨slots, hrun⟩ :=
        Pool.exists_run_done hworkers.1 _ [] (pairs.map fun _ => none)
      rw [← firstFailure_eq_mapM_of_run hrun]
      exact .byWorkers (by simpa using hparallel) (by omega) hworkers hrun

/-- **No schedule shows in the transforms.** Whatever the plan, every way to compute the transforms
of pairs has the result of comparing them one after the other: all transforms in the order of the
pairs, or the error of the first pair in that order that has no transform. -/
theorem computed_iff_eq_transforms (plan : Plan) (pairs : List (Domain × Domain)) :
    (∀ result, Computed plan pairs result ↔ result = transforms plan pairs) ∧
      (∀ finished : List ℕ, finished.Perm (List.range pairs.length) →
        sideBySide between pairs finished = transforms plan pairs) ∧
      transforms plan pairs = pairs.mapM between ∧
      (∀ results, transforms plan pairs = .ok results ↔
        List.Forall₂ (fun pair transform => between pair = .ok transform) pairs results) ∧
      ∀ e, transforms plan pairs = .error e ↔ ∃ before pair after, pairs = before ++ pair :: after ∧
        (∀ earlier ∈ before, ∃ transform, between earlier = .ok transform) ∧
        between pair = .error e := by
  rw [transforms_eq_mapM]
  refine ⟨computed_iff_eq_mapM plan pairs, fun finished hperm => ?_, rfl, fun results => ?_,
    fun e => ?_⟩
  · exact sideBySide_eq_mapM_of_perm between pairs hperm
  · exact mapM_eq_ok_iff
  · exact mapM_eq_error_iff

/-- A version with two tuples. -/
def fullVersion : Decl.Domain := ⟨"v0", [⟨"left", .product, []⟩, ⟨"right", .product, []⟩], []⟩

/-- A version that refers to a tuple of the first one without having it. -/
def brokenVersion (tag member : String) : Decl.Domain :=
  ⟨tag, [⟨"wrapper", .product, [⟨"inner", member, .required⟩]⟩], []⟩

/-- Of two pairs that have no transform, the later one is done first. -/
theorem computed_iff_eq_transforms_reversed : ∃ full first second,
    Domain.synthesize fullVersion = .ok full ∧
    Domain.synthesize (brokenVersion "v1" "left") = .ok first ∧
    Domain.synthesize (brokenVersion "v2" "right") = .ok second ∧
    [2, 1, 0].Perm (List.range 3) ∧
    between (full, second) =
      .error (.removedTagReferenced "v0" "v2" "wrapper" "inner" "right") ∧
    sideBySide between [(full, full), (full, first), (full, second)] [2, 1, 0] =
      .error (.removedTagReferenced "v0" "v1" "wrapper" "inner" "left") ∧
    Computed { threads := some 3 } [(full, full), (full, first), (full, second)]
      (.error (.removedTagReferenced "v0" "v1" "wrapper" "inner" "left")) := by
  obtain ⟨full, first, second, same, hfull, hfirst, hsecond, hsame, hfails, hfails'⟩ :
      ∃ full first second same, Domain.synthesize fullVersion = .ok full ∧
        Domain.synthesize (brokenVersion "v1" "left") = .ok first ∧
        Domain.synthesize (brokenVersion "v2" "right") = .ok second ∧
        between (full, full) = .ok same ∧
        between (full, first) =
          .error (.removedTagReferenced "v0" "v1" "wrapper" "inner" "left") ∧
        between (full, second) =
          .error (.removedTagReferenced "v0" "v2" "wrapper" "inner" "right") :=
    ⟨_, _, _, _, rfl, rfl, rfl, rfl, rfl, rfl⟩
  obtain ⟨hcomputed, hsideBySide, -, -, herror⟩ := computed_iff_eq_transforms { threads := some 3 }
    [(full, full), (full, first), (full, second)]
  have hresult := (herror _).mpr ⟨[(full, full)], (full, first), [(full, second)], rfl,
    by simpa using ⟨same, hsame⟩, hfails⟩
  have hperm : [2, 1, 0].Perm (List.range 3) := by decide
  exact ⟨full, first, second, hfull, hfirst, hsecond, hperm, hfails',
    (hsideBySide _ hperm).trans hresult, (hcomputed _).mpr hresult.symm⟩

end DomainEvolution.Compilation

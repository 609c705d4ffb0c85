import DomainEvolution.Compilation
import Mathlib.Data.List.Basic

/-!
# Jobs done side by side

Jobs that are done side by side finish in any order. Each outcome is kept at the place of its job,
so once every place is finished the slots read as if the jobs had been done one after the other, and
the first failure by place is the first failure.
-/

namespace DomainEvolution.Compilation

variable {ε α β : Type}

/-- A finished place holds the outcome of its job, and any other place what it held before. -/
theorem getElem?_finish (job : α → β) (items : List α) {slots : List (Option β)}
    (hlength : slots.length = items.length) (place i : Nat) :
    (finish job items slots place)[i]? =
      if i = place then items[i]?.map (some ∘ job) else slots[i]? := by
  unfold finish
  split
  · rename_i item hitem
    by_cases hi : i = place
    · subst hi
      have hlt : i < slots.length := by
        rw [hlength]
        exact (List.getElem?_eq_some_iff.mp hitem).1
      rw [List.getElem?_set_self hlt, if_pos rfl, hitem]
      rfl
    · rw [List.getElem?_set_ne (Ne.symm hi), if_neg hi]
  · rename_i hnone
    by_cases hi : i = place
    · subst hi
      have hle : slots.length ≤ i := by
        rw [hlength]
        exact List.getElem?_eq_none_iff.mp hnone
      rw [if_pos rfl, hnone, List.getElem?_eq_none_iff.mpr hle]
      rfl
    · rw [if_neg hi]

theorem length_finish (job : α → β) (items : List α) (slots : List (Option β)) (place : Nat) :
    (finish job items slots place).length = slots.length := by
  unfold finish
  split
  · exact List.length_set
  · rfl

/-- Whatever the order in which places finish, each holds the outcome of its job in the end. -/
theorem getElem?_foldl_finish (job : α → β) (items : List α) (finished : List Nat)
    {slots : List (Option β)} (hlength : slots.length = items.length) (i : Nat) :
    (finished.foldl (finish job items) slots)[i]? =
      if i ∈ finished then items[i]?.map (some ∘ job) else slots[i]? := by
  induction finished generalizing slots with
  | nil => simp
  | cons place rest ih =>
    have hnext : (finish job items slots place).length = items.length := by
      rw [length_finish, hlength]
    rw [List.foldl_cons, ih hnext, getElem?_finish job items hlength]
    by_cases hrest : i ∈ rest
    · rw [if_pos hrest, if_pos (List.mem_cons_of_mem _ hrest)]
    · simp only [hrest, if_false, List.mem_cons, or_false]

/-- Once every place is finished, the slots hold all outcomes in the order of the jobs. -/
theorem foldl_finish_eq_map (job : α → β) (items : List α) {finished : List Nat}
    (hall : ∀ i < items.length, i ∈ finished) :
    finished.foldl (finish job items) (items.map fun _ => none) = items.map (some ∘ job) := by
  refine List.ext_getElem? fun i => ?_
  rw [getElem?_foldl_finish job items finished (List.length_map _), List.getElem?_map,
    List.getElem?_map]
  by_cases hi : i < items.length
  · rw [if_pos (hall i hi)]
  · rw [List.getElem?_eq_none_iff.mpr (Nat.le_of_not_lt hi), Option.map_none, Option.map_none,
      ite_self]

/-- The first failure among outcomes is the failure of the jobs done one after the other. -/
theorem firstFailure_map (job : α → Except ε β) (items : List α) :
    firstFailure (items.map job) = items.mapM job := by
  induction items with
  | nil => rfl
  | cons item rest ih =>
    rw [List.map_cons, List.mapM_cons]
    cases hjob : job item with
    | error e => rfl
    | ok value =>
      rw [firstFailure, ih]
      rfl

/-- Jobs done side by side have the result of the same jobs done one after the other. -/
theorem sideBySide_eq_mapM (job : α → Except ε β) (items : List α) {finished : List Nat}
    (hall : ∀ i < items.length, i ∈ finished) : sideBySide job items finished = items.mapM job := by
  have hvalues : (items.map (some ∘ job)).filterMap id = items.map job := by
    rw [List.filterMap_map, Function.id_comp]
    exact congrFun List.filterMap_eq_map items
  rw [sideBySide, foldl_finish_eq_map job items hall, hvalues, firstFailure_map]

/-- The plan does not show in the transforms. -/
theorem transforms_eq_mapM (plan : Plan) (pairs : List (Domain × Domain)) :
    transforms plan pairs = pairs.mapM between := by
  unfold transforms
  split
  · exact sideBySide_eq_mapM between pairs fun i hi => List.mem_range.mpr hi
  · rfl

end DomainEvolution.Compilation

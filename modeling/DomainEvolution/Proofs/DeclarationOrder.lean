import DomainEvolution.Proofs.CompilationStages
import Mathlib.Data.List.NodupEquivFin
import Mathlib.Logic.Equiv.Basic

/-!
# The order of declaration

The order in which domains and requests are declared decides which fault is reported, but not
whether there is one. Whatever places the domains and the requests change, their models and
transforms change the same places; and requests may be left out.
-/

namespace DomainEvolution

/-! ### Picking items by place -/

/-- The items of the second list are those of the first one at certain places. -/
def Picks {α : Type} (place : ℕ → ℕ) (items picked : List α) : Prop :=
  ∀ i, picked[i]? = items[place i]?

namespace Picks

variable {α β : Type} {place : ℕ → ℕ} {items picked : List α}

theorem lt_length_iff (h : Picks place items picked) {i : ℕ} :
    place i < items.length ↔ i < picked.length := by
  rw [← not_le, ← not_le, ← List.getElem?_eq_none_iff, ← List.getElem?_eq_none_iff, h i]

theorem subset (h : Picks place items picked) : picked ⊆ items := by
  intro item hitem
  obtain ⟨i, hi⟩ := List.mem_iff_getElem?.mp hitem
  exact List.mem_iff_getElem?.mpr ⟨place i, h i ▸ hi⟩

theorem map (f : α → β) (h : Picks place items picked) :
    Picks place (items.map f) (picked.map f) := by
  intro i
  rw [List.getElem?_map, List.getElem?_map, h i]

/-- From places of their own, no item is picked twice. -/
theorem nodup (h : Picks place items picked) (hplace : Function.Injective place)
    (hnodup : items.Nodup) : picked.Nodup := by
  rw [List.nodup_iff_getElem?_ne_getElem?]
  intro i j hij hj heq
  rw [h i, h j] at heq
  exact hij.ne' (hplace ((List.getElem?_inj (h.lt_length_iff.mpr hj) hnodup).mp heq.symm))

/-- An exchange of places can be undone. -/
theorem symm {σ : Equiv.Perm ℕ} (h : Picks σ items picked) : Picks σ.symm picked items := by
  intro i
  rw [h, Equiv.apply_symm_apply]

/-- Of a list that belongs to the items, the places pick what belongs to the picked ones. -/
theorem exists_forall₂ {R : α → β → Prop} {values : List β} (h : Picks place items picked)
    (hall : List.Forall₂ R items values) :
    ∃ chosen, Picks place values chosen ∧ List.Forall₂ R picked chosen := by
  have hplace (i : Fin picked.length) : place i < values.length :=
    hall.length_eq ▸ h.lt_length_iff.mpr i.isLt
  refine ⟨List.ofFn fun i => values.get ⟨place i, hplace i⟩, fun i => ?_, ?_⟩
  · rw [List.getElem?_ofFn]
    split
    · exact (List.getElem?_eq_getElem _).symm
    · rename_i hi
      rw [← h.lt_length_iff, hall.length_eq, not_lt, ← List.getElem?_eq_none_iff] at hi
      exact hi.symm
  · rw [List.forall₂_iff_get]
    refine ⟨(List.length_ofFn).symm, fun i hi _ => ?_⟩
    have hitem : picked.get ⟨i, hi⟩ = items.get ⟨place i, h.lt_length_iff.mpr hi⟩ := by
      rw [List.get_eq_getElem, List.get_eq_getElem, ← Option.some_inj, ← List.getElem?_eq_getElem,
        ← List.getElem?_eq_getElem, h i]
    rw [hitem, List.get_ofFn]
    exact hall.get _ _

end Picks

/-- The first place stays, and those behind it change among themselves. -/
def stayFirst (σ : Equiv.Perm ℕ) : Equiv.Perm ℕ where
  toFun
    | 0 => 0
    | i + 1 => σ i + 1
  invFun
    | 0 => 0
    | i + 1 => σ.symm i + 1
  left_inv i := by cases i <;> simp
  right_inv i := by cases i <;> simp

/-- The first two items change places. -/
theorem picks_swap {α : Type} (first second : α) (rest : List α) :
    Picks (Equiv.swap 0 1) (first :: second :: rest) (second :: first :: rest) := by
  intro i
  match i with
  | 0 => rfl
  | 1 => rfl
  | i + 2 =>
    rw [Equiv.swap_apply_of_ne_of_ne (by simp) (by simp)]
    rfl

/-- Every permutation of a list is an exchange of places. -/
theorem exists_picks_of_perm {α : Type} {items picked : List α} (h : items.Perm picked) :
    ∃ σ : Equiv.Perm ℕ, Picks σ items picked := by
  induction h with
  | nil => exact ⟨Equiv.refl ℕ, fun _ => rfl⟩
  | cons item _ ih =>
    obtain ⟨σ, hσ⟩ := ih
    refine ⟨stayFirst σ, fun i => ?_⟩
    cases i with
    | zero => rfl
    | succ i => exact hσ i
  | swap first second rest => exact ⟨Equiv.swap 0 1, picks_swap second first rest⟩
  | trans _ _ ih ih' =>
    obtain ⟨σ, hσ⟩ := ih
    obtain ⟨τ, hτ⟩ := ih'
    exact ⟨τ.trans σ, fun i => (hτ i).trans (hσ (τ i))⟩

/-! ### Universes -/

namespace Decl.Universe

variable {decl other : Decl.Universe}

theorem Defines.of_subset (hdomains : decl.domains ⊆ other.domains) {tag : String}
    {model : DomainEvolution.Domain} (h : decl.Defines tag model) : other.Defines tag model := by
  obtain ⟨domain, hdomain, h⟩ := h
  exact ⟨domain, hdomains hdomain, h⟩

theorem Requested.of_subset (hdomains : decl.domains ⊆ other.domains) {request : Request}
    {result : Except CompileError Transform} (h : decl.Requested request result) :
    other.Requested request result := by
  obtain ⟨source, destination, hsource, hdestination, h⟩ := h
  exact ⟨source, destination, hsource.of_subset hdomains, hdestination.of_subset hdomains, h⟩

theorem Declares.of_subset (hdomains : decl.domains ⊆ other.domains) {request : Request}
    (h : decl.Declares request) : other.Declares request :=
  ⟨List.map_subset _ hdomains h.1, List.map_subset _ hdomains h.2⟩

/-- A universe stays in order when its domains change places and requests are left out. -/
theorem Ordered.of_picks (h : decl.Ordered) {σ : Equiv.Perm ℕ}
    (hdomains : Picks σ decl.domains other.domains)
    (hrequests : other.requests ⊆ decl.requests) : other.Ordered where
  tags := (hdomains.map _).nodup σ.injective h.tags
  models domain hdomain := h.models domain (hdomains.subset hdomain)
  declares request hrequest :=
    (h.declares request (hrequests hrequest)).of_subset hdomains.symm.subset
  acyclic := h.acyclic.of_subset hrequests

end Decl.Universe

namespace Universe

open Compilation

variable {decl other : Decl.Universe}

/-- Where domains change places and requests are picked, so are the models and the transforms. -/
theorem exists_compile_eq_ok_of_picks {σ : Equiv.Perm ℕ} {place : ℕ → ℕ}
    (hdomains : Picks σ decl.domains other.domains)
    (hrequests : Picks place decl.requests other.requests) {plan : Plan} (plan' : Plan)
    {result : Universe} (hok : compile decl plan = .ok result) :
    ∃ result', compile other plan' = .ok result' ∧ Picks σ result.domains result'.domains ∧
      Picks place result.transforms result'.transforms := by
  obtain ⟨hordered, hmodels, htransforms⟩ := compile_eq_ok_iff.mp hok
  obtain ⟨models, hpicked, hmodels⟩ := hdomains.exists_forall₂ hmodels
  obtain ⟨transforms, hpicked', htransforms⟩ := hrequests.exists_forall₂ htransforms
  have hother : other.Ordered := hordered.of_picks hdomains hrequests.subset
  refine ⟨⟨models, transforms⟩, compile_eq_ok_iff.mpr ⟨hother, hmodels, ?_⟩, hpicked, hpicked'⟩
  exact htransforms.imp fun _ _ h => h.of_subset hdomains.symm.subset

/-- A universe compiles exactly if it does so after domains and requests change places. -/
theorem exists_compile_eq_ok_iff_of_picks {σ τ : Equiv.Perm ℕ}
    (hdomains : Picks σ decl.domains other.domains)
    (hrequests : Picks τ decl.requests other.requests) (plan plan' : Plan) :
    (∃ result, compile decl plan = .ok result) ↔ ∃ result, compile other plan' = .ok result := by
  constructor
  · rintro ⟨result, hok⟩
    obtain ⟨result', hok', -⟩ := exists_compile_eq_ok_of_picks hdomains hrequests plan' hok
    exact ⟨result', hok'⟩
  · rintro ⟨result, hok⟩
    obtain ⟨result', hok', -⟩ :=
      exists_compile_eq_ok_of_picks hdomains.symm hrequests.symm plan hok
    exact ⟨result', hok'⟩

/-- Whether a universe compiles does not depend on the order of its declarations. -/
theorem exists_compile_eq_ok_iff_of_perm (hdomains : decl.domains.Perm other.domains)
    (hrequests : decl.requests.Perm other.requests) (plan plan' : Plan) :
    (∃ result, compile decl plan = .ok result) ↔ ∃ result, compile other plan' = .ok result := by
  obtain ⟨σ, hσ⟩ := exists_picks_of_perm hdomains
  obtain ⟨τ, hτ⟩ := exists_picks_of_perm hrequests
  exact exists_compile_eq_ok_iff_of_picks hσ hτ plan plan'

/-- Requests that are picked from those of a universe that compiles pick their transforms. -/
theorem exists_compile_eq_ok_of_picks_requests {place : ℕ → ℕ} {requests : List Decl.Request}
    (hrequests : Picks place decl.requests requests) {plan : Plan} (plan' : Plan)
    {result : Universe} (hok : compile decl plan = .ok result) :
    ∃ result', compile ⟨decl.domains, requests⟩ plan' = .ok result' ∧
      result'.domains = result.domains ∧ Picks place result.transforms result'.transforms := by
  have hsame : Picks (Equiv.refl ℕ) decl.domains (Decl.Universe.mk decl.domains requests).domains :=
    fun _ => rfl
  obtain ⟨result', hok', hmodels, htransforms⟩ :=
    exists_compile_eq_ok_of_picks hsame hrequests plan' hok
  exact ⟨result', hok', List.ext_getElem? hmodels, htransforms⟩

/-- Requests may be left out of a universe that compiles. -/
theorem exists_compile_eq_ok_of_sublist {requests : List Decl.Request}
    (hrequests : requests.Sublist decl.requests) {plan : Plan} (plan' : Plan)
    {result : Universe} (hok : compile decl plan = .ok result) :
    ∃ result', compile ⟨decl.domains, requests⟩ plan' = .ok result' ∧
      result'.domains = result.domains ∧ result'.transforms.Sublist result.transforms := by
  obtain ⟨kept, hkept⟩ := List.sublist_iff_exists_orderEmbedding_getElem?_eq.mp hrequests
  obtain ⟨result', hok', hmodels, htransforms⟩ :=
    exists_compile_eq_ok_of_picks_requests hkept plan' hok
  exact ⟨result', hok', hmodels,
    List.sublist_iff_exists_orderEmbedding_getElem?_eq.mpr ⟨kept, htransforms⟩⟩

/-- **The order of declarations decides the order of the results and nothing else**, and leaving
requests out leaves the other transforms as they are. Permutations of places give all permutations
of a list, and order embeddings all of its sublists. -/
theorem compile_perm_and_sublist {σ τ : Equiv.Perm ℕ}
    (hdomains : Picks σ decl.domains other.domains)
    (hrequests : Picks τ decl.requests other.requests) (plan plan' : Plan) :
    ((∃ result, compile decl plan = .ok result) ↔ ∃ result, compile other plan' = .ok result) ∧
      (∀ result result', compile decl plan = .ok result → compile other plan' = .ok result' →
        Picks σ result.domains result'.domains ∧ Picks τ result.transforms result'.transforms) ∧
      ∀ (kept : ℕ ↪o ℕ) (requests : List Decl.Request), Picks kept decl.requests requests →
        ∀ result, compile decl plan = .ok result →
          ∃ result', compile ⟨decl.domains, requests⟩ plan' = .ok result' ∧
            result'.domains = result.domains ∧ Picks kept result.transforms result'.transforms := by
  refine ⟨exists_compile_eq_ok_iff_of_picks hdomains hrequests plan plan', ?_, ?_⟩
  · intro result result' hok hok'
    obtain ⟨found, hfound, hpicked⟩ := exists_compile_eq_ok_of_picks hdomains hrequests plan' hok
    rwa [Except.ok.inj (hok'.symm.trans hfound)]
  · intro kept requests hkept result hok
    exact exists_compile_eq_ok_of_picks_requests hkept plan' hok

/-- A version with one tuple. -/
def firstVersion : Decl.Domain := ⟨"v1", [⟨"pair", .product, [⟨"first", "int", .required⟩]⟩], []⟩

/-- The version after the tuple got a property. -/
def secondVersion : Decl.Domain :=
  ⟨"v2", [⟨"pair", .product, [⟨"first", "int", .required⟩, ⟨"second", "int", .optional⟩]⟩], []⟩

/-- The version after the tuple was removed. -/
def lastVersion : Decl.Domain := ⟨"v3", [], []⟩

/-- The versions in their order, each with a transform to the next. -/
def versions : Decl.Universe :=
  ⟨[firstVersion, secondVersion, lastVersion], [⟨"v1", "v2"⟩, ⟨"v2", "v3"⟩]⟩

/-- The versions and the transforms in another order. -/
def versionsSwapped : Decl.Universe :=
  ⟨[secondVersion, firstVersion, lastVersion], [⟨"v2", "v3"⟩, ⟨"v1", "v2"⟩]⟩

theorem compile_perm_and_sublist_versions : ∃ all swapped last,
    compile versions {} = .ok all ∧ compile versionsSwapped {} = .ok swapped ∧
    compile ⟨versions.domains, [⟨"v2", "v3"⟩]⟩ {} = .ok last ∧
    Picks (Equiv.swap 0 1) all.domains swapped.domains ∧
    Picks (Equiv.swap 0 1) all.transforms swapped.transforms ∧
    last.domains = all.domains ∧ Picks Nat.succ all.transforms last.transforms := by
  obtain ⟨all, hall⟩ : ∃ all, compile versions {} = .ok all := by
    have hacyclic : Lineage.checkAcyclic versions.requests = .ok () := by cbv
    rw [compile, hacyclic]
    exact ⟨_, rfl⟩
  have hdomains : Picks (Equiv.swap 0 1) versions.domains versionsSwapped.domains :=
    picks_swap _ _ _
  have hrequests : Picks (Equiv.swap 0 1) versions.requests versionsSwapped.requests :=
    picks_swap _ _ _
  have hkept : Picks (OrderEmbedding.ofStrictMono Nat.succ fun _ _ => Nat.succ_lt_succ)
      versions.requests [⟨"v2", "v3"⟩] := fun _ => rfl
  obtain ⟨haccepted, hreordered, hrestricted⟩ :=
    compile_perm_and_sublist hdomains hrequests {} {}
  obtain ⟨swapped, hswapped⟩ := haccepted.mp ⟨all, hall⟩
  obtain ⟨last, hlast, hsame, hlastTransforms⟩ := hrestricted _ _ hkept all hall
  obtain ⟨hmodels, htransforms⟩ := hreordered all swapped hall hswapped
  exact ⟨all, swapped, last, hall, hswapped, hlast, hmodels, htransforms, hsame, hlastTransforms⟩

end Universe

end DomainEvolution

import Mathlib.Data.List.Forall2

/-!
# The first failure of a list of computations

Every stage of a compilation runs one computation for each item of a list and stops at the first
one that fails. A stage therefore succeeds exactly when all of its computations do, and otherwise
its error is that of an item before which everything succeeded.
-/

namespace DomainEvolution

section Bind

variable {ε α β : Type} {x : Except ε α} {f : α → Except ε β}

/-- Two computations in a row succeed exactly when both do. -/
theorem bind_eq_ok_iff {b : β} : (x >>= f) = .ok b ↔ ∃ a, x = .ok a ∧ f a = .ok b := by
  cases x <;> simp [bind, Except.bind]

/-- Two computations in a row fail with the error of the first one, or else with that of the
second one. -/
theorem bind_eq_error_iff {e : ε} :
    (x >>= f) = .error e ↔ x = .error e ∨ ∃ a, x = .ok a ∧ f a = .error e := by
  cases x <;> simp [bind, Except.bind]

/-- A computation fails exactly when it does not succeed. -/
theorem exists_eq_error_iff : (∃ e, x = .error e) ↔ ¬ ∃ a, x = .ok a := by
  cases x <;> simp

/-- Computations that fail with the same errors succeed together. -/
theorem exists_eq_ok_iff_of_error_iff {y : Except ε β} (h : ∀ e, x = .error e ↔ y = .error e) :
    (∃ a, x = .ok a) ↔ ∃ b, y = .ok b := by
  cases x with
  | error e =>
    rw [(h e).mp rfl]
    simp
  | ok a =>
    cases y with
    | error e => cases (h e).mpr rfl
    | ok b => exact iff_of_true ⟨a, rfl⟩ ⟨b, rfl⟩

end Bind

/-- Of lists whose items belong together in pairs, each item of the second one has a partner in the
first. -/
theorem exists_of_mem_of_forall₂ {α β : Type} {R : α → β → Prop} {items : List α} {others : List β}
    (h : List.Forall₂ R items others) {b : β} (hb : b ∈ others) : ∃ a ∈ items, R a b := by
  induction h with
  | nil => simp at hb
  | cons hpair _ ih =>
    rcases List.mem_cons.mp hb with rfl | hb
    · exact ⟨_, List.mem_cons_self, hpair⟩
    · obtain ⟨a, ha, hpair⟩ := ih hb
      exact ⟨a, List.mem_cons_of_mem _ ha, hpair⟩

section Lists

variable {ε α β : Type} {f : α → Except ε β}

/-- A list of computations succeeds exactly with the values of its items, in order. -/
theorem mapM_eq_ok_iff {items : List α} {values : List β} :
    items.mapM f = .ok values ↔ List.Forall₂ (fun a b => f a = .ok b) items values := by
  induction items generalizing values with
  | nil => cases values <;> simp [pure, Except.pure]
  | cons item items ih =>
    rw [List.mapM_cons, bind_eq_ok_iff, List.forall₂_cons_left_iff]
    constructor
    · rintro ⟨b, hb, h⟩
      obtain ⟨bs, hbs, h⟩ := bind_eq_ok_iff.mp h
      cases h
      exact ⟨b, bs, hb, ih.mp hbs, rfl⟩
    · rintro ⟨b, bs, hb, hbs, rfl⟩
      exact ⟨b, hb, bind_eq_ok_iff.mpr ⟨bs, ih.mpr hbs, rfl⟩⟩

/-- A list of computations fails exactly with the error of its first item that fails. -/
theorem mapM_eq_error_iff {items : List α} {e : ε} :
    items.mapM f = .error e ↔ ∃ before item after, items = before ++ item :: after ∧
      (∀ a ∈ before, ∃ b, f a = .ok b) ∧ f item = .error e := by
  induction items with
  | nil => simp [pure, Except.pure]
  | cons first items ih =>
    rw [List.mapM_cons, bind_eq_error_iff]
    constructor
    · rintro (hfirst | ⟨b, hb, h⟩)
      · exact ⟨[], first, items, rfl, by simp, hfirst⟩
      · rcases bind_eq_error_iff.mp h with h | ⟨bs, _, h⟩
        · obtain ⟨before, item, after, rfl, hbefore, hitem⟩ := ih.mp h
          exact ⟨first :: before, item, after, rfl,
            List.forall_mem_cons.mpr ⟨⟨b, hb⟩, hbefore⟩, hitem⟩
        · cases h
    · rintro ⟨before, item, after, hsplit, hbefore, hitem⟩
      cases before with
      | nil =>
        obtain ⟨rfl, rfl⟩ := List.cons.inj hsplit
        exact Or.inl hitem
      | cons _ before =>
        obtain ⟨rfl, rfl⟩ := List.cons.inj hsplit
        obtain ⟨⟨b, hb⟩, hbefore⟩ := List.forall_mem_cons.mp hbefore
        refine Or.inr ⟨b, hb, bind_eq_error_iff.mpr (Or.inl ?_)⟩
        exact ih.mpr ⟨before, item, after, rfl, hbefore, hitem⟩

/-- A list of computations with known values has the list of these values. -/
theorem mapM_eq_ok_map {items : List α} {g : α → β} (h : ∀ a ∈ items, f a = .ok (g a)) :
    items.mapM f = .ok (items.map g) := by
  rw [mapM_eq_ok_iff, List.forall₂_map_right_iff, List.forall₂_same]
  exact h

/-- If all computations of a list succeed, then so does the list. -/
theorem exists_mapM_eq_ok {items : List α} (h : ∀ a ∈ items, ∃ b, f a = .ok b) :
    ∃ values, items.mapM f = .ok values := by
  cases hresult : items.mapM f with
  | ok values => exact ⟨values, rfl⟩
  | error e =>
    obtain ⟨before, item, after, rfl, _, hitem⟩ := mapM_eq_error_iff.mp hresult
    obtain ⟨b, hb⟩ := h item (by simp)
    rw [hitem] at hb
    cases hb

/-- What each value inherits from its item, the list of values inherits from the list of items. -/
theorem map_eq_map_of_mapM_eq_ok {γ : Type} {items : List α} {values : List β} {g : α → γ}
    {h : β → γ} (hstep : ∀ a ∈ items, ∀ b, f a = .ok b → h b = g a)
    (hok : items.mapM f = .ok values) : values.map h = items.map g := by
  have hall := mapM_eq_ok_iff.mp hok
  clear hok
  induction hall with
  | nil => rfl
  | cons hb _ ih =>
    rw [List.map_cons, List.map_cons, hstep _ (by simp) _ hb,
      ih fun a ha => hstep a (List.mem_cons_of_mem _ ha)]

/-- Every value comes from an item. -/
theorem exists_of_mem_of_mapM_eq_ok {items : List α} {values : List β}
    (hok : items.mapM f = .ok values) {b : β} (hb : b ∈ values) : ∃ a ∈ items, f a = .ok b :=
  exists_of_mem_of_forall₂ (mapM_eq_ok_iff.mp hok) hb

/-- Every item has its value among the values. -/
theorem exists_mem_of_mapM_eq_ok {items : List α} {values : List β}
    (hok : items.mapM f = .ok values) {a : α} (ha : a ∈ items) : ∃ b ∈ values, f a = .ok b :=
  exists_of_mem_of_forall₂ (mapM_eq_ok_iff.mp hok).flip ha

/-- A second pass over the values of a first one that succeeded is one pass that does both. -/
theorem mapM_eq_mapM_bind {γ : Type} {items : List α} {values : List β} (g : β → Except ε γ)
    (hok : items.mapM f = .ok values) : values.mapM g = items.mapM fun a => f a >>= g := by
  have hall := mapM_eq_ok_iff.mp hok
  clear hok
  induction hall with
  | nil => rfl
  | cons hb _ ih =>
    rw [List.mapM_cons, List.mapM_cons, ih, hb]
    rfl

/-- Computing the parts of each item in turn is computing all parts in a row. -/
theorem mapM_flatMap {γ : Type} {items : List γ} (parts : γ → List α) (f : α → Except ε β) :
    (items.flatMap parts).mapM f = List.flatten <$> items.mapM fun item => (parts item).mapM f := by
  induction items with
  | nil => rfl
  | cons item items ih =>
    rw [List.flatMap_cons, List.mapM_append, List.mapM_cons, ih]
    cases (parts item).mapM f with
    | error e => rfl
    | ok first => cases items.mapM fun item => (parts item).mapM f <;> rfl

end Lists

end DomainEvolution

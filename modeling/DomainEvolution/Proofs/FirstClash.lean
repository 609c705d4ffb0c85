import DomainEvolution.Clash
import Mathlib.Data.List.Nodup
import Mathlib.Order.Bounds.Basic

/-!
# The first clash of a list

Reading things in order with the earlier ones at hand finds no clash exactly when all tags differ
and all names differ. A clash that is found is a real one, and nothing before it clashes: it stands
at the first place at which a tag or a name is taken.
-/

namespace DomainEvolution.Clash

variable {α : Type} (tagOf nameOf : α → String)

/-- Things that can stand side by side: no two share a tag, and no two share a name. -/
structure Distinct (things : List α) : Prop where
  tags : (things.map tagOf).Nodup
  names : (things.map nameOf).Nodup

/-- What the first clash of a list says. The things before it are distinct; a tag is taken by one of
them, or a name is taken by one of them while the tag is free. -/
inductive IsFirst (things : List α) : Clash α → Prop
  | tag {before after : List α} {later : α} (hsplit : things = before ++ later :: after)
      (hbefore : Distinct tagOf nameOf before) (htag : tagOf later ∈ before.map tagOf) :
      IsFirst things (.tag later)
  | name {before after : List α} {earlier later : α} (hsplit : things = before ++ later :: after)
      (hbefore : Distinct tagOf nameOf before) (htag : tagOf later ∉ before.map tagOf)
      (hearlier : earlier ∈ before) (hname : nameOf earlier = nameOf later) :
      IsFirst things (.name earlier later)

/-- The thing at a place has the key of an earlier thing. -/
def Taken (keyOf : α → String) (things : List α) (place : Nat) : Prop :=
  ∃ later, things[place]? = some later ∧ keyOf later ∈ (things.take place).map keyOf

/-- The first place at which a tag or a name is taken. -/
def IsFirstTaken (things : List α) (place : Nat) : Prop :=
  IsLeast {i | Taken tagOf things i ∨ Taken nameOf things i} place

variable {tagOf nameOf}

/-! ### Keys -/

section Keys

variable {keyOf : α → String}

/-- Where all keys differ, a thing is all that is found under its key. -/
theorem filter_key_eq_singleton {things : List α} (hkeys : (things.map keyOf).Nodup) {thing : α}
    (h : thing ∈ things) : things.filter (keyOf · == keyOf thing) = [thing] := by
  refine List.perm_singleton.mp ((List.perm_ext_iff_of_nodup (hkeys.of_map.filter _)
    (List.nodup_singleton thing)).mpr fun other => ?_)
  rw [List.mem_filter, List.mem_singleton, beq_iff_eq]
  constructor
  · rintro ⟨hother, hkey⟩
    exact List.inj_on_of_nodup_map hkeys hother h hkey
  · rintro rfl
    exact ⟨h, rfl⟩

/-- Where all keys differ, no thing has the key of an earlier one. -/
theorem key_notMem_of_nodup {before after : List α} {later : α}
    (hkeys : ((before ++ later :: after).map keyOf).Nodup) : keyOf later ∉ before.map keyOf := by
  rw [List.map_append, List.map_cons] at hkeys
  exact fun h => List.disjoint_of_nodup_append hkeys h List.mem_cons_self

/-- Among things in front whose keys all differ, no key is taken. -/
theorem not_taken_of_nodup {before : List α} (hkeys : (before.map keyOf).Nodup) (after : List α)
    {place : Nat} (hplace : place < before.length) : ¬ Taken keyOf (before ++ after) place := by
  rintro ⟨later, hlater, hkey⟩
  rw [List.getElem?_append_left hplace] at hlater
  rw [List.take_append_of_le_length hplace.le] at hkey
  obtain ⟨_, rfl⟩ := List.getElem?_eq_some_iff.mp hlater
  have hsplit : before.take place ++ before[place] :: before.drop (place + 1) = before := by
    rw [List.getElem_cons_drop, List.take_append_drop]
  rw [← hsplit] at hkeys
  exact key_notMem_of_nodup hkeys hkey

end Keys

/-! ### The clash that is found -/

/-- A thing can be added to distinct ones if both its tag and its name are free. -/
theorem Distinct.append_singleton {before : List α} {next : α}
    (hbefore : Distinct tagOf nameOf before) (htag : tagOf next ∉ before.map tagOf)
    (hname : nameOf next ∉ before.map nameOf) : Distinct tagOf nameOf (before ++ [next]) where
  tags := by
    rw [List.map_append, List.map_singleton, ← List.concat_eq_append]
    exact List.Nodup.concat htag hbefore.tags
  names := by
    rw [List.map_append, List.map_singleton, ← List.concat_eq_append]
    exact List.Nodup.concat hname hbefore.names

/-- A list with a first clash is not distinct. -/
theorem IsFirst.not_distinct {things : List α} {clash : Clash α}
    (h : IsFirst tagOf nameOf things clash) : ¬ Distinct tagOf nameOf things := by
  intro hdistinct
  cases h with
  | tag hsplit _ htag =>
    rw [hsplit] at hdistinct
    exact key_notMem_of_nodup hdistinct.tags htag
  | name hsplit _ _ hearlier hname =>
    rw [hsplit] at hdistinct
    refine key_notMem_of_nodup hdistinct.names ?_
    rw [← hname]
    exact List.mem_map_of_mem hearlier

/-- Reading on after distinct things ends with a distinct list, or with the first clash of it. -/
theorem findAfter?_outcome {before : List α} (hbefore : Distinct tagOf nameOf before)
    (rest : List α) :
    match findAfter? tagOf nameOf before.reverse rest with
    | none => Distinct tagOf nameOf (before ++ rest)
    | some clash => IsFirst tagOf nameOf (before ++ rest) clash := by
  induction rest generalizing before with
  | nil => simpa [findAfter?] using hbefore
  | cons next rest ih =>
    by_cases htag : tagOf next ∈ before.map tagOf
    · have hany : before.reverse.any (tagOf · == tagOf next) = true := by
        simpa using htag
      simp only [findAfter?, hany, if_true]
      exact .tag rfl hbefore htag
    · have hany : before.reverse.any (tagOf · == tagOf next) = false := by
        simpa using htag
      simp only [findAfter?, hany, Bool.false_eq_true, if_false]
      cases hfind : before.reverse.find? (nameOf · == nameOf next) with
      | some earlier =>
        have hearlier := List.mem_reverse.mp (List.mem_of_find?_eq_some hfind)
        have hname := List.find?_some hfind
        exact .name rfl hbefore htag hearlier (by simpa using hname)
      | none =>
        have hname : nameOf next ∉ before.map nameOf := by
          simpa using hfind
        have h := ih (hbefore.append_singleton htag hname)
        rwa [List.reverse_concat, List.append_assoc, List.singleton_append] at h

/-- No clash is found exactly in lists of distinct things. -/
theorem find?_eq_none_iff {things : List α} :
    find? tagOf nameOf things = none ↔ Distinct tagOf nameOf things := by
  have hempty : Distinct tagOf nameOf [] := ⟨List.nodup_nil, List.nodup_nil⟩
  have houtcome := findAfter?_outcome hempty things
  rw [List.reverse_nil, List.nil_append] at houtcome
  unfold find?
  split at houtcome
  · next hnone => exact ⟨fun _ => houtcome, fun _ => hnone⟩
  · next hsome => simp [hsome, houtcome.not_distinct]

/-- A clash that is found is the first one. -/
theorem isFirst_of_find?_eq_some {things : List α} {clash : Clash α}
    (h : find? tagOf nameOf things = some clash) : IsFirst tagOf nameOf things clash := by
  have hempty : Distinct tagOf nameOf [] := ⟨List.nodup_nil, List.nodup_nil⟩
  have houtcome := findAfter?_outcome hempty things
  unfold find? at h
  rwa [List.reverse_nil, List.nil_append, h] at houtcome

/-! ### The place of a clash -/

/-- Behind distinct things, a thing with the tag or the name of one of them stands at the first
place at which one is taken. -/
theorem isFirstTaken_of_split {things before after : List α} {later : α}
    (hsplit : things = before ++ later :: after) (hbefore : Distinct tagOf nameOf before)
    (hlater : tagOf later ∈ before.map tagOf ∨ nameOf later ∈ before.map nameOf) :
    IsFirstTaken tagOf nameOf things before.length := by
  have hat : things[before.length]? = some later := by simp [hsplit]
  have hfront : things.take before.length = before := by simp [hsplit]
  constructor
  · refine hlater.imp (fun h => ⟨later, hat, ?_⟩) (fun h => ⟨later, hat, ?_⟩) <;> rwa [hfront]
  · intro place htaken
    by_contra hlt
    rw [not_le] at hlt
    rw [hsplit] at htaken
    exact htaken.elim (not_taken_of_nodup hbefore.tags _ hlt)
      (not_taken_of_nodup hbefore.names _ hlt)

/-- Where a tag or a name is taken, things are not distinct. -/
theorem IsFirstTaken.not_distinct {things : List α} {place : Nat}
    (h : IsFirstTaken tagOf nameOf things place) : ¬ Distinct tagOf nameOf things := by
  intro hdistinct
  have hplace : place < things.length := by
    obtain ⟨_, hlater, -⟩ | ⟨_, hlater, -⟩ := h.1 <;>
      exact (List.getElem?_eq_some_iff.mp hlater).1
  rw [← List.append_nil things] at h
  exact h.1.elim (not_taken_of_nodup hdistinct.tags _ hplace)
    (not_taken_of_nodup hdistinct.names _ hplace)

end DomainEvolution.Clash

import DomainEvolution.Json.Codec
import Mathlib.Data.List.Forall2
import Mathlib.Data.List.Perm.Basic

/-!
# Objects written in another way

An object may be written without the members that have their usual values, with its members in
another order, and with members that nobody knows. A value is rewritten by doing so independently in
every object inside it. What is written for a record may be rewritten in this way and still stands
for the record, provided that a field may be left out wherever its usual value may.
-/

namespace DomainEvolution.Json

/-- The members of an object with new values, some usual ones left out. -/
inductive Kept (usual : List (String × Json)) (R : Json → Json → Prop) :
    List (String × Json) → List (String × Json) → Prop
  | nil : Kept usual R [] []
  | kept {key : String} {value new : Json} {members kept : List (String × Json)}
      (hvalue : R value new) (h : Kept usual R members kept) :
      Kept usual R ((key, value) :: members) ((key, new) :: kept)
  | leftOut {key : String} {value : Json} {members kept : List (String × Json)}
      (husual : (key, value) ∈ usual) (h : Kept usual R members kept) :
      Kept usual R ((key, value) :: members) kept

/-- A value in which the objects are written in another way: usual members may be left out, unknown
ones added, and the order changed. -/
inductive Rewritten (usual : List (String × Json)) : Json → Json → Prop
  | same (value : Json) : Rewritten usual value value
  | array {items new : List Json} (h : List.Forall₂ (Rewritten usual) items new) :
      Rewritten usual (.array items) (.array new)
  | object {members kept unknown new : List (String × Json)}
      (hkept : Kept usual (Rewritten usual) members kept)
      (hunknown : ∀ member ∈ unknown, ∀ known ∈ members, member.1 ≠ known.1)
      (horder : (kept ++ unknown).Perm new) : Rewritten usual (.object members) (.object new)

section

variable {usual : List (String × Json)}

theorem Kept.of_refl {R : Json → Json → Prop} (hR : ∀ value, R value value)
    (members : List (String × Json)) : Kept usual R members members := by
  induction members with
  | nil => exact .nil
  | cons member members ih => exact .kept (hR member.2) ih

/-- No key comes in with the members that are kept. -/
theorem Kept.key_ne {R : Json → Json → Prop} {members kept : List (String × Json)}
    (h : Kept usual R members kept) {name : String} (hname : ∀ member ∈ members, member.1 ≠ name) :
    ∀ member ∈ kept, member.1 ≠ name := by
  induction h with
  | nil => exact hname
  | kept _ _ ih =>
    obtain ⟨hhead, htail⟩ := List.forall_mem_cons.mp hname
    exact List.forall_mem_cons.mpr ⟨hhead, ih htail⟩
  | leftOut _ _ ih => exact ih (List.forall_mem_cons.mp hname).2

/-- Everything that is rewritten from what a codec writes for a value stands for the value. -/
def Codec.Tolerates (usual : List (String × Json)) {α : Type} (codec : Codec α) (a : α) : Prop :=
  ∀ value, Rewritten usual (codec.write a) value → codec.Shows a value

/-- The members of a record may be rewritten and still stand for its fields. -/
def Fields.Tolerates (usual : List (String × Json)) {σ α : Type} (fields : Fields σ α) (a : α) :
    Prop :=
  ∀ kept unknown members, Kept usual (Rewritten usual) (fields.write a) kept →
    (∀ member ∈ unknown, ∀ known ∈ fields.write a, member.1 ≠ known.1) →
    (kept ++ unknown).Perm members → fields.Shows a members

theorem Codec.string_tolerates (s : String) : Codec.string.Tolerates usual s := by
  rintro value ⟨⟩
  rfl

theorem Codec.choice_unit_tolerates {α : Type} {variants : List (Variant α)} {write : α → Json}
    {a : α} {name : String} (hwrite : write a = .string name) :
    (Codec.choice variants write).Tolerates usual a := by
  intro value h
  change Rewritten usual (write a) value at h
  rw [hwrite] at h
  cases h
  exact hwrite.symm

theorem Codec.list_tolerates {α : Type} {codec : Codec α} {items : List α}
    (h : ∀ item ∈ items, codec.Tolerates usual item) :
    (Codec.list codec).Tolerates usual items := by
  intro value hvalue
  obtain ⟨values, rfl, hvalues⟩ : ∃ values, value = .array values ∧
      List.Forall₂ (Rewritten usual) (items.map codec.write) values := by
    cases hvalue with
    | same => exact ⟨_, rfl, List.forall₂_same.mpr fun _ _ => .same _⟩
    | array hvalues => exact ⟨_, rfl, hvalues⟩
  obtain ⟨hlength, hzip⟩ := List.forall₂_iff_zip.mp (List.forall₂_map_left_iff.mp hvalues)
  refine ⟨values, rfl, hlength.symm, fun pair hpair => ?_⟩
  exact h _ (List.of_mem_zip hpair).1 _ (hzip hpair)

theorem Fields.nil_tolerates : Fields.nil.Tolerates usual () := fun _ _ _ _ _ _ => trivial

section Cons

variable {σ α β : Type} {name : String} {codec : Codec β} {omission : Omission β}
variable {others : Fields σ α} {a : α} {b : β}

/-- A field may be rewritten if it may be left out wherever its usual value may. -/
theorem Fields.cons_tolerates (hcodec : codec.Tolerates usual b)
    (hname : ∀ member ∈ others.write a, member.1 ≠ name)
    (husual : (name, codec.write b) ∈ usual → omission.inObject? = some b)
    (h : others.Tolerates usual a) :
    (Fields.cons name codec omission others).Tolerates usual (b, a) := by
  intro kept unknown members hkept hunknown horder
  have hunknownName : ∀ member ∈ unknown, member.1 ≠ name := fun member hmember =>
    hunknown member hmember _ List.mem_cons_self
  have hunknownOthers : ∀ member ∈ unknown, ∀ known ∈ others.write a, member.1 ≠ known.1 :=
    fun member hmember known hknown => hunknown member hmember known (List.mem_cons_of_mem _ hknown)
  -- No other member has the name, so the field is found exactly where it has been kept.
  have hnone : ∀ {kept}, Kept usual (Rewritten usual) (others.write a) kept →
      (kept ++ unknown).filter (·.1 == name) = [] := fun hkept => by
    refine List.filter_eq_nil_iff.mpr fun member hmember heq => ?_
    rcases List.mem_append.mp hmember with hmember | hmember
    · exact hkept.key_ne hname member hmember (eq_of_beq heq)
    · exact hunknownName member hmember (eq_of_beq heq)
  have hfilter := horder.filter (·.1 == name)
  cases hkept with
  | @kept _ _ new _ kept hvalue hkept =>
    have hothers : others.Shows a members := by
      refine h kept ((name, new) :: unknown) members hkept ?_ (List.perm_middle.trans horder)
      exact List.forall_mem_cons.mpr ⟨fun known hknown => (hname known hknown).symm, hunknownOthers⟩
    have hfound : [(name, new)] = members.filter (·.1 == name) := by
      simpa [hnone hkept] using hfilter
    refine ⟨?_, hothers⟩
    simp only [← hfound]
    exact hcodec new hvalue
  | leftOut hmem hkept =>
    have hfound : members.filter (·.1 == name) = [] := by
      simpa [hnone hkept] using hfilter
    refine ⟨?_, h kept unknown members hkept hunknownOthers horder⟩
    simp only [hfound]
    exact husual hmem

end Cons

theorem Codec.record_tolerates {σ α ρ : Type} {title : String} {fields : Fields σ α} {build : α → ρ}
    {parts : ρ → α} {r : ρ} (h : fields.Tolerates usual (parts r)) :
    (Codec.record title fields build parts).Tolerates usual r := by
  intro value hvalue
  cases hvalue with
  | same =>
    exact ⟨_, rfl, h _ [] _ (.of_refl .same _) (by simp) (by simp)⟩
  | object hkept hunknown horder => exact ⟨_, rfl, h _ _ _ hkept hunknown horder⟩

end

end DomainEvolution.Json

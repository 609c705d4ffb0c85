import DomainEvolution.Proofs.UnchangedMembers

/-!
# Rearranged declarations

Neither the tag of a domain nor the order of its members is part of what it defines. The generated
names of two members meet inside the domain or not at all, so that a rearranged declaration is as
legal as it was before; and its model defines the same members, so that there is nothing to
transform.
-/

namespace DomainEvolution

namespace Name

theorem qualify_assoc (owner inner name : String) :
    qualify (qualify owner inner) name = qualify owner (qualify inner name) := by
  simp only [qualify, String.append_assoc]

theorem qualify_injective (owner : String) : Function.Injective (qualify owner) := by
  intro first second h
  exact (String.append_right_inj _).mp h

end Name

namespace Decl

/-- What a comparison will read of a declared property. -/
def Property.skeleton (property : Decl.Property) : DomainEvolution.Property.Skeleton where
  tag := property.tag
  rawType := property.typeName
  isNullable := property.cardinality == .optional
  isVariadic := property.cardinality == .variadic

/-- What a comparison will read of a declared tuple. -/
def Tuple.skeleton (tuple : Decl.Tuple) : DomainEvolution.Tuple.Skeleton where
  tag := tuple.tag
  isRecord := tuple.kind == .record
  properties := tuple.properties.map (·.skeleton)

/-- Sums that declare the same variants, in whatever order. -/
structure Sum.Reordered (sum other : Decl.Sum) : Prop where
  tag : sum.tag = other.tag
  variants : sum.variants.Perm other.variants

/-- Domains that declare the same tuples and the same sums, under whatever tags and in whatever
order. A tuple is the same only if its properties stand in the same order. -/
structure Domain.Rearranged (decl other : Decl.Domain) : Prop where
  tuples : decl.tuples.Perm other.tuples
  sums : ∃ sums, decl.sums.Perm sums ∧ List.Forall₂ Sum.Reordered sums other.sums

namespace Domain

/-- The tags of a domain with the names that are generated for them inside the domain. -/
def localNames (decl : Decl.Domain) : List (String × String) :=
  decl.tuples.map (fun tuple => (tuple.tag, Name.pascal tuple.tag)) ++
    decl.sums.flatMap fun sum => (sum.tag, Name.pascal sum.tag) ::
      sum.variants.map fun v => (v.tag, Name.qualify (Name.pascal sum.tag) (Name.pascal v.tag))

/-- All that a domain declares: its tuples, and then each sum followed by its variants. -/
def definitions (decl : Decl.Domain) : List Definition :=
  decl.tuples.map (.tuple ·.skeleton) ++
    decl.sums.flatMap fun sum => .sum sum.tag :: sum.variants.map (.variant sum.tag ·.skeleton)

/-- The generated names are the names inside the domain, qualified by the domain's own. -/
theorem generatedNames_eq (decl : Decl.Domain) :
    decl.generatedNames = decl.localNames.map fun member =>
      (member.1, Name.qualify (Name.pascal decl.tag) member.2) := by
  simp [generatedNames, localNames, List.map_flatMap, Name.qualify_assoc, Function.comp_def]

theorem map_fst_generatedNames (decl : Decl.Domain) :
    decl.generatedNames.map (·.1) = decl.localNames.map (·.1) := by
  rw [generatedNames_eq, List.map_map]
  rfl

/-- Whether generated names meet does not depend on the name of the domain. -/
theorem nodup_generatedNames_iff (decl : Decl.Domain) :
    (decl.generatedNames.map (·.2)).Nodup ↔ (decl.localNames.map (·.2)).Nodup := by
  have hnames : decl.generatedNames.map (·.2) =
      (decl.localNames.map (·.2)).map (Name.qualify (Name.pascal decl.tag)) := by
    rw [generatedNames_eq, List.map_map, List.map_map]
    rfl
  rw [hnames, List.nodup_map_iff (Name.qualify_injective _)]

end Domain

/-! ### What survives a rearrangement -/

/-- Lists of items that belong together in pairs, read alike up to order, read alike up to order. -/
theorem flatMap_perm_of_forall₂ {α β : Type} {R : α → α → Prop} {read : α → List β}
    (hread : ∀ a b, R a b → (read a).Perm (read b)) {items others : List α}
    (h : List.Forall₂ R items others) : (items.flatMap read).Perm (others.flatMap read) := by
  induction h with
  | nil => exact .refl _
  | cons hitem _ ih => exact (hread _ _ hitem).append ih

namespace Domain

variable {decl other : Decl.Domain}

theorem Rearranged.symm (h : decl.Rearranged other) : other.Rearranged decl where
  tuples := h.tuples.symm
  sums := by
    obtain ⟨sums, hperm, hall⟩ := h.sums
    obtain ⟨middle, hmiddle, hperm'⟩ := List.perm_comp_forall₂ hperm hall
    refine ⟨middle, hperm'.symm, List.Forall₂.flip (hmiddle.imp fun _ _ hsum => ?_)⟩
    exact ⟨hsum.tag.symm, hsum.variants.symm⟩

/-- What is read of each sum up to the order of its variants, is read of all sums up to order. -/
theorem Rearranged.flatMap_sums {β : Type} {read : Decl.Sum → List β}
    (hread : ∀ sum other, Sum.Reordered sum other → (read sum).Perm (read other))
    (h : decl.Rearranged other) : (decl.sums.flatMap read).Perm (other.sums.flatMap read) := by
  obtain ⟨sums, hperm, hall⟩ := h.sums
  exact (hperm.flatMap_right read).trans (flatMap_perm_of_forall₂ hread hall)

theorem Rearranged.allTuples (h : decl.Rearranged other) :
    decl.allTuples.Perm other.allTuples :=
  h.tuples.append (h.flatMap_sums fun _ _ hsum => hsum.variants)

theorem Rearranged.localNames (h : decl.Rearranged other) :
    decl.localNames.Perm other.localNames := by
  refine (h.tuples.map _).append (h.flatMap_sums fun sum other hsum => ?_)
  rw [hsum.tag]
  exact (hsum.variants.map _).cons _

theorem Rearranged.definitions (h : decl.Rearranged other) :
    decl.definitions.Perm other.definitions := by
  refine (h.tuples.map _).append (h.flatMap_sums fun sum other hsum => ?_)
  rw [hsum.tag]
  exact (hsum.variants.map _).cons _

/-- A rearranged declaration is as legal as it was before. -/
theorem Rearranged.legal (h : decl.Rearranged other) (hlegal : decl.Legal) : other.Legal where
  tags := by
    have htags := hlegal.tags
    rw [map_fst_generatedNames] at htags ⊢
    exact (h.localNames.map _).nodup htags
  names := by
    have hnames := hlegal.names
    rw [nodup_generatedNames_iff] at hnames ⊢
    exact (h.localNames.map _).nodup hnames
  sums sum hsum := by
    obtain ⟨sums, hperm, hall⟩ := h.sums
    obtain ⟨before, hbefore, hsame⟩ := exists_of_mem_of_forall₂ hall hsum
    have hne := hlegal.sums before (hperm.mem_iff.mpr hbefore)
    exact fun hnil => hne (hnil ▸ hsame.variants).eq_nil
  shapes tuple htuple := hlegal.shapes tuple (h.allTuples.mem_iff.mpr htuple)
  properties tuple htuple := hlegal.properties tuple (h.allTuples.mem_iff.mpr htuple)

end Domain

end Decl

namespace Synthesis

/-- A tuple is synthesized in the structure in which it is declared. -/
theorem Scope.tuple_skeleton {scope : Scope} {owner : String} {decl : Decl.Tuple} {tuple : Tuple}
    (hok : scope.tuple owner decl = .ok tuple) : tuple.skeleton = decl.skeleton := by
  obtain ⟨_, _, _, _, rfl⟩ := tuple_eq_ok_iff.mp hok
  simp only [Tuple.skeleton, completed, List.map_map]
  rfl

/-- What a sum declares is what its synthesis defines. -/
theorem Scope.sum_definitions {scope : Scope} {domain : String} {decl : Decl.Sum} {sum : Sum}
    (hok : scope.sum domain decl = .ok sum) :
    Definition.sum sum.tag :: sum.variants.map (.variant sum.tag ·.skeleton) =
      .sum decl.tag :: decl.variants.map (.variant decl.tag ·.skeleton) := by
  obtain ⟨_, variants, hvariants, rfl⟩ := sum_eq_ok_iff.mp hok
  refine congrArg (Definition.sum decl.tag :: ·)
    (map_eq_map_of_mapM_eq_ok (fun v _ tuple htuple => ?_) hvariants)
  exact congrArg (Definition.variant decl.tag) (tuple_skeleton (atMember_eq_ok_iff.mp htuple))

/-- What a domain declares is what its synthesis defines. -/
theorem definitions_of_synthesize {decl : Decl.Domain} {domain : Domain}
    (hok : Domain.synthesize decl = .ok domain) : domain.definitions = decl.definitions := by
  -- Types are resolved and names generated on the way, but definitions hold neither.
  obtain ⟨_, tuples, sums, htuples, hsums, rfl⟩ := synthesize_eq_ok_iff.mp hok
  have htupleDefinitions : tuples.map (Definition.tuple ·.skeleton) =
      decl.tuples.map (.tuple ·.skeleton) :=
    map_eq_map_of_mapM_eq_ok (fun _ _ _ h =>
      congrArg Definition.tuple (Scope.tuple_skeleton (atMember_eq_ok_iff.mp h))) htuples
  have hsumDefinitions := map_eq_map_of_mapM_eq_ok (fun _ _ _ h => Scope.sum_definitions h) hsums
  rw [Domain.definitions, htupleDefinitions, List.flatMap_def, hsumDefinitions, ← List.flatMap_def]
  rfl

end Synthesis

namespace Difference

/-- A rearranged declaration defines nothing else. -/
theorem sameMembers_of_rearranged {decl other : Decl.Domain} (h : decl.Rearranged other)
    {first second : Domain} (hfirst : Domain.synthesize decl = .ok first)
    (hsecond : Domain.synthesize other = .ok second) : first.SameMembers second := by
  have hdefinitions : first.definitions.Perm second.definitions := by
    rw [Synthesis.definitions_of_synthesize hfirst, Synthesis.definitions_of_synthesize hsecond]
    exact h.definitions
  exact .of_subset (Synthesis.coherent_of_synthesize hfirst).tags
    (Synthesis.coherent_of_synthesize hsecond).tags hdefinitions.subset hdefinitions.symm.subset

/-- A rearranged declaration leaves nothing to transform. -/
theorem unchanged_of_rearranged {decl other : Decl.Domain} (h : decl.Rearranged other)
    {first second : Domain} (hfirst : Domain.synthesize decl = .ok first)
    (hsecond : Domain.synthesize other = .ok second) : first.Unchanged second :=
  unchanged_of_sameMembers (sameMembers_of_rearranged h.symm hsecond hfirst)
    (Synthesis.coherent_of_synthesize hfirst).tags (Synthesis.coherent_of_synthesize hsecond)

/-- **Renaming a domain and rearranging its members is never a change.** The rearranged declaration
is accepted exactly if the given one is, and then neither model needs a transform to the other. -/
theorem synthesize_iff_and_unchanged_of_rearranged {decl other : Decl.Domain}
    (h : decl.Rearranged other) :
    ((∃ first, Domain.synthesize decl = .ok first) ↔
        ∃ second, Domain.synthesize other = .ok second) ∧
      ∀ first second, Domain.synthesize decl = .ok first → Domain.synthesize other = .ok second →
        first.Unchanged second ∧ second.Unchanged first := by
  refine ⟨?_, fun first second hfirst hsecond => ?_⟩
  · rw [Synthesis.exists_synthesize_eq_ok_iff, Synthesis.exists_synthesize_eq_ok_iff]
    exact ⟨h.legal, h.symm.legal⟩
  · exact ⟨unchanged_of_rearranged h hfirst hsecond, unchanged_of_rearranged h.symm hsecond hfirst⟩

/-- A domain with two sums, of which a tuple refers to one. -/
def drawing : Decl.Domain where
  tag := "drawing"
  tuples := [⟨"page", .product, []⟩, ⟨"figure", .record, [⟨"outline", "shape", .optional⟩]⟩]
  sums := [⟨"shape", [⟨"dot", .product, []⟩, ⟨"box", .product, [⟨"side", "int", .required⟩]⟩]⟩,
    ⟨"unit", [⟨"inch", .product, []⟩]⟩]

/-- The domain under another tag, with its tuples, sums and the variants of one sum exchanged. -/
def sketches : Decl.Domain where
  tag := "sketch_book"
  tuples := [⟨"figure", .record, [⟨"outline", "shape", .optional⟩]⟩, ⟨"page", .product, []⟩]
  sums := [⟨"unit", [⟨"inch", .product, []⟩]⟩,
    ⟨"shape", [⟨"box", .product, [⟨"side", "int", .required⟩]⟩, ⟨"dot", .product, []⟩]⟩]

/-- The models differ in all generated names and agree in what they define. -/
theorem synthesize_iff_and_unchanged_of_rearranged_drawing : drawing.Rearranged sketches ∧
    ∃ first second, Domain.synthesize drawing = .ok first ∧
      Domain.synthesize sketches = .ok second ∧ first.name = "Drawing" ∧
      second.name = "SketchBook" ∧ first.Unchanged second ∧ second.Unchanged first := by
  have h : drawing.Rearranged sketches :=
    { tuples := .swap _ _ _
      sums := ⟨_, .swap _ _ _, .cons ⟨rfl, .refl _⟩ (.cons ⟨rfl, .swap _ _ _⟩ .nil)⟩ }
  obtain ⟨-, hunchanged⟩ := synthesize_iff_and_unchanged_of_rearranged h
  obtain ⟨first, second, hfirst, hsecond, hname, hname'⟩ :
      ∃ first second, Domain.synthesize drawing = .ok first ∧
        Domain.synthesize sketches = .ok second ∧ first.name = "Drawing" ∧
        second.name = "SketchBook" :=
    ⟨_, _, rfl, rfl, rfl, rfl⟩
  exact ⟨h, first, second, hfirst, hsecond, hname, hname', hunchanged first second hfirst hsecond⟩

end Difference

end DomainEvolution

import DomainEvolution.Overload
import DomainEvolution.Proofs.FirstClash
import DomainEvolution.Proofs.FirstFailure

/-!
# Names of properties

The builders of a tuple exist exactly when its properties can be told apart by tag and by name.
Nothing else can keep a tuple from having builders, whatever its shape. If it has none, the first
property that repeats the tag or the name of an earlier one is to blame.
-/

namespace DomainEvolution

/-- What tells a property apart from its neighbours: its tag and its name. -/
def Property.label (property : Property) : String × String := (property.tag, property.name)

namespace Overload

/-- What is wrong with the names of properties, given by tag and name: the first property whose tag
or name is taken. -/
inductive IsFault (labels : List (String × String)) : ShapeError → Prop
  | duplicateProperty {before after : List (String × String)} {tag name : String}
      (hsplit : labels = before ++ (tag, name) :: after)
      (hbefore : Clash.Distinct Prod.fst Prod.snd before) (htag : tag ∈ before.map Prod.fst) :
      IsFault labels (.duplicateProperty tag)
  | nameCollision {before after : List (String × String)} {earlier later name : String}
      (hsplit : labels = before ++ (later, name) :: after)
      (hbefore : Clash.Distinct Prod.fst Prod.snd before) (htag : later ∉ before.map Prod.fst)
      (hearlier : (earlier, name) ∈ before) :
      IsFault labels (.nameCollision name earlier later)

/-- What the property at a place repeats: a tag of the properties before it, or else the name of the
only one of them that has this name. -/
inductive Repeats (properties : List Property) (place : Nat) : ShapeError → Prop
  | duplicateProperty {later : Property} (hlater : properties[place]? = some later)
      (htag : later.tag ∈ (properties.take place).map (·.tag)) :
      Repeats properties place (.duplicateProperty later.tag)
  | nameCollision {first later : Property} (hlater : properties[place]? = some later)
      (htag : later.tag ∉ (properties.take place).map (·.tag))
      (hfirst : (properties.take place).filter (·.name == later.name) = [first])
      (hdiffers : first.tag ≠ later.tag) :
      Repeats properties place (.nameCollision later.name first.tag later.tag)

/-- Properties are told apart by their labels. -/
theorem distinct_labels_iff {properties : List Property} :
    Clash.Distinct Prod.fst Prod.snd (properties.map (·.label)) ↔
      Clash.Distinct Property.tag Property.name properties := by
  constructor
  · rintro ⟨htags, hnames⟩
    rw [List.map_map] at htags hnames
    exact ⟨htags, hnames⟩
  · rintro ⟨htags, hnames⟩
    refine ⟨?_, ?_⟩ <;> rw [List.map_map]
    · exact htags
    · exact hnames

/-- Names pass the check exactly when all properties can be told apart. -/
theorem checkNames_eq_ok_iff {properties : List Property} :
    checkNames properties = .ok () ↔ Clash.Distinct Property.tag Property.name properties := by
  rw [← Clash.find?_eq_none_iff]
  unfold checkNames
  split <;> simp_all

private theorem map_label_split {properties before after : List Property} {later : Property}
    (h : properties = before ++ later :: after) : properties.map (·.label) =
      before.map (·.label) ++ (later.tag, later.name) :: after.map (·.label) := by
  rw [h, List.map_append, List.map_cons]
  rfl

/-- The reason for which names are refused is true of them. -/
theorem isFault_of_checkNames_eq_error {properties : List Property} {reason : ShapeError}
    (herror : checkNames properties = .error reason) :
    IsFault (properties.map (·.label)) reason := by
  unfold checkNames at herror
  split at herror
  · cases herror
  · next later hfind =>
    cases herror
    cases Clash.isFirst_of_find?_eq_some hfind with
    | @tag before after _ hsplit hbefore htag =>
      refine .duplicateProperty (map_label_split hsplit) (distinct_labels_iff.mpr hbefore) ?_
      rwa [List.map_map]
  · next earlier later hfind =>
    cases herror
    cases Clash.isFirst_of_find?_eq_some hfind with
    | @name before after _ _ hsplit hbefore htag hearlier hname =>
      refine .nameCollision (map_label_split hsplit) (distinct_labels_iff.mpr hbefore) ?_ ?_
      · rwa [List.map_map]
      · rw [← hname]
        exact List.mem_map_of_mem (f := Property.label) hearlier

/-- At one place, a property repeats one thing. -/
theorem Repeats.unique {properties : List Property} {place : Nat} {e e' : ShapeError}
    (h : Repeats properties place e) (h' : Repeats properties place e') : e = e' := by
  cases h <;> cases h' <;> grind

theorem exists_repeats_of_checkNames_eq_error {properties : List Property} {reason : ShapeError}
    (herror : checkNames properties = .error reason) :
    ∃ i, Clash.IsFirstTaken Property.tag Property.name properties i ∧
      Repeats properties i reason := by
  unfold checkNames at herror
  split at herror
  · cases herror
  · next later hfind =>
    cases herror
    cases Clash.isFirst_of_find?_eq_some hfind with
    | @tag before after _ hsplit hbefore htag =>
      refine ⟨before.length, Clash.isFirstTaken_of_split hsplit hbefore (Or.inl htag),
        .duplicateProperty (by simp [hsplit]) ?_⟩
      rwa [hsplit, List.take_left]
  · next earlier later hfind =>
    cases herror
    cases Clash.isFirst_of_find?_eq_some hfind with
    | @name before after _ _ hsplit hbefore htag hearlier hname =>
      have hfront : properties.take before.length = before := by rw [hsplit, List.take_left]
      have htaken : later.name ∈ before.map (·.name) := hname ▸ List.mem_map_of_mem hearlier
      refine ⟨before.length, Clash.isFirstTaken_of_split hsplit hbefore (Or.inr htaken),
        .nameCollision (by simp [hsplit]) ?_ ?_ ?_⟩
      · rwa [hfront]
      · rw [hfront, ← hname]
        exact Clash.filter_key_eq_singleton hbefore.names hearlier
      · intro hsame
        rw [← hsame] at htag
        exact htag (List.mem_map_of_mem hearlier)

/-- Names are refused for what the first property repeats whose tag or name is taken. -/
theorem checkNames_eq_error_iff {properties : List Property} {reason : ShapeError} :
    checkNames properties = .error reason ↔
      ∃ i, Clash.IsFirstTaken Property.tag Property.name properties i ∧
        Repeats properties i reason := by
  constructor
  · exact exists_repeats_of_checkNames_eq_error
  · rintro ⟨i, hfirst, hrepeats⟩
    cases hresult : checkNames properties with
    | ok _ => exact absurd (checkNames_eq_ok_iff.mp hresult) hfirst.not_distinct
    | error found =>
      obtain ⟨j, hfirstFound, hrepeatsFound⟩ := exists_repeats_of_checkNames_eq_error hresult
      obtain rfl := IsLeast.unique hfirst hfirstFound
      rw [hrepeats.unique hrepeatsFound]

/-- The builders that a tuple has if its properties can be told apart. -/
def overloads (tuple : Tuple) : List Builder :=
  let name := Name.camel tuple.tag
  let positional := positional tuple.properties
  baseline name tuple.isRecord tuple.properties ::
    (List.range (optionalRun positional)).map fun i =>
      shortened name tuple.properties (positional.length - (i + 1))

/-- A tuple has builders exactly when its properties can be told apart. -/
theorem builders_eq_ok_iff {tuple : Tuple} {result : List Builder} :
    builders tuple = .ok result ↔
      Clash.Distinct Property.tag Property.name tuple.properties ∧ result = overloads tuple := by
  rw [← checkNames_eq_ok_iff, builders, bind_eq_ok_iff]
  constructor
  · rintro ⟨_, hnames, h⟩
    cases h
    exact ⟨hnames, rfl⟩
  · rintro ⟨hnames, rfl⟩
    exact ⟨(), hnames, rfl⟩

/-- A tuple is refused builders for its names alone. -/
theorem builders_eq_error_iff {tuple : Tuple} {reason : ShapeError} :
    builders tuple = .error reason ↔ checkNames tuple.properties = .error reason := by
  rw [builders, bind_eq_error_iff]
  constructor
  · rintro (h | ⟨_, _, h⟩)
    · exact h
    · cases h
  · exact Or.inl

/-- **The verdict on names.** A tuple has builders exactly when the tags of its properties all
differ and so do their names; otherwise it is refused them for what the first property repeats whose
tag or name is taken. -/
theorem exists_builders_iff_nodup_and_error_iff_repeats (tuple : Tuple) :
    ((∃ result, builders tuple = .ok result) ↔
      (tuple.properties.map (·.tag)).Nodup ∧ (tuple.properties.map (·.name)).Nodup) ∧
    ∀ reason, builders tuple = .error reason ↔
      ∃ i, Clash.IsFirstTaken Property.tag Property.name tuple.properties i ∧
        Repeats tuple.properties i reason := by
  refine ⟨?_, fun reason => builders_eq_error_iff.trans checkNames_eq_error_iff⟩
  constructor
  · rintro ⟨result, hok⟩
    obtain ⟨hdistinct, -⟩ := builders_eq_ok_iff.mp hok
    exact ⟨hdistinct.tags, hdistinct.names⟩
  · rintro ⟨htags, hnames⟩
    exact ⟨overloads tuple, builders_eq_ok_iff.mpr ⟨⟨htags, hnames⟩, rfl⟩⟩

end Overload

end DomainEvolution

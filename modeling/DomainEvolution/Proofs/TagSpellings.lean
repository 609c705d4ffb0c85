import DomainEvolution.Proofs.CompilationStages
import DomainEvolution.Proofs.DifferenceMembers
import DomainEvolution.Proofs.NameWords
import Mathlib.Logic.Relation

/-!
# Spellings of a tag

Underscores that separate nothing can be put into a tag and taken out of it again: the tags that
come of it are those with the same words, and all of them generate the same names. A generated name
has no underscores left, so that naming it once more changes at most its first character; and since
joined tags have joined names, the name of a difference can be read off its tag.
-/

namespace DomainEvolution

namespace Name

/-- The second tag has one underscore more, at one of its ends or beside another one. -/
inductive Padded : List Char → List Char → Prop
  | front (tag : List Char) : Padded tag ('_' :: tag)
  | back (tag : List Char) : Padded tag (tag ++ ['_'])
  | beside (before after : List Char) :
      Padded (before ++ '_' :: after) (before ++ '_' :: '_' :: after)

/-- One tag comes of the other by putting in and taking out underscores at its ends and beside
others. -/
def Respelled (first second : String) : Prop :=
  Relation.EqvGen Padded first.toList second.toList

/-- What ties two ways to name things to the words of tags. The first two laws leave no choice of
names; the others say how names of joined tags, of names and of respelled tags come out. -/
structure WordByWord (pascal camel : String → String) : Prop where
  pascal_words : ∀ tag, pascal tag = String.ofList ((words tag.toList).flatMap capitalizeFirst)
  camel_words : ∀ tag, camel tag = String.ofList (joinWords (words tag.toList))
  pascal_joined : ∀ first second, pascal (first ++ "_" ++ second) = pascal first ++ pascal second
  camel_joined : ∀ first second, (∃ c ∈ first.toList, c ≠ '_') →
    camel (first ++ "_" ++ second) = camel first ++ pascal second
  camel_skipped : ∀ first second, (∀ c ∈ first.toList, c = '_') →
    camel (first ++ "_" ++ second) = camel second
  pascal_camel : ∀ tag, pascal (camel tag) = pascal tag
  camel_camel : ∀ tag, camel (camel tag) = camel tag
  respelled : ∀ first second, Respelled first second →
    pascal first = pascal second ∧ camel first = camel second

/-! ### Respelling -/

/-- An underscore that separates nothing leaves the words as they are. -/
theorem Padded.words_eq {tag padded : List Char} (h : Padded tag padded) :
    words tag = words padded := by
  cases h with
  | front => exact (words_append_underscore [] tag).symm
  | back =>
    rw [words_append_underscore]
    exact (List.append_nil _).symm
  | beside before after =>
    rw [words_append_underscore, words_append_underscore before]
    exact congrArg (words before ++ ·) (words_append_underscore [] after).symm

/-- What can be respelled by itself can be respelled at the end of a tag. -/
theorem Padded.behind {tag padded : List Char} (h : Padded tag padded) (front : List Char) :
    Padded (front ++ '_' :: tag) (front ++ '_' :: padded) := by
  cases h with
  | front => exact .beside front tag
  | back => simpa using Padded.back (front ++ '_' :: tag)
  | beside before after => simpa using Padded.beside (front ++ '_' :: before) after

theorem words_eq_of_eqvGen {first second : List Char} (h : Relation.EqvGen Padded first second) :
    words first = words second := by
  induction h with
  | rel _ _ hpadded => exact hpadded.words_eq
  | refl => rfl
  | symm _ _ _ ih => exact ih.symm
  | trans _ _ _ _ _ ih ih' => exact ih.trans ih'

theorem eqvGen_behind {first second : List Char} (h : Relation.EqvGen Padded first second)
    (front : List Char) :
    Relation.EqvGen Padded (front ++ '_' :: first) (front ++ '_' :: second) := by
  induction h with
  | rel _ _ hpadded => exact .rel _ _ (hpadded.behind front)
  | refl => exact .refl _
  | symm _ _ _ ih => exact .symm _ _ ih
  | trans _ _ _ _ _ ih ih' => exact .trans _ _ _ ih ih'

/-- Every tag can be respelled with one underscore between its words and no others. -/
theorem eqvGen_intercalate_words (tag : List Char) :
    Relation.EqvGen Padded tag (['_'].intercalate (words tag)) := by
  induction tag using induction_on_pieces with
  | piece piece hpiece =>
    rw [words_of_notMem hpiece]
    split
    · next hnil =>
      rw [hnil]
      exact .refl _
    · simpa using Relation.EqvGen.refl piece
  | joined piece rest hpiece _ ihrest =>
    have hrest := eqvGen_behind ihrest piece
    rw [words_append_underscore, words_of_notMem hpiece]
    split
    · next hnil =>
      subst hnil
      exact .trans _ _ _ (.symm _ _ (.rel _ _ (.front rest))) ihrest
    · by_cases hwords : words rest = []
      · -- Only underscores are left behind the piece, of which the last one goes as well.
        rw [hwords] at hrest ⊢
        refine .trans _ _ _ hrest (.symm _ _ ?_)
        simpa using Relation.EqvGen.rel _ _ (Padded.back piece)
      · rw [List.singleton_append, List.intercalate_cons_of_ne_nil hwords, List.append_assoc]
        exact hrest

/-- Tags are spellings of one another exactly if they have the same words. -/
theorem respelled_iff {first second : String} :
    Respelled first second ↔ words first.toList = words second.toList := by
  constructor
  · exact words_eq_of_eqvGen
  · intro h
    have hfirst := eqvGen_intercalate_words first.toList
    have hsecond := eqvGen_intercalate_words second.toList
    rw [h] at hfirst
    exact .trans _ _ _ hfirst (.symm _ _ hsecond)

/-! ### Names as tags -/

theorem underscore_notMem_capitalizeFirst {word : List Char} (h : '_' ∉ word) :
    '_' ∉ capitalizeFirst word := by
  cases word with
  | nil => exact h
  | cons c rest =>
    rw [List.mem_cons, not_or] at h
    rw [capitalizeFirst, List.mem_append, not_or]
    exact ⟨Text.underscore_notMem_uppercase (Ne.symm h.1), h.2⟩

/-- No underscore is left in a camel case. -/
theorem underscore_notMem_capitalizeLaterWords (tag : List Char) :
    '_' ∉ capitalizeLaterWords tag := by
  have hwords (word : List Char) (hword : word ∈ words tag) : '_' ∉ word :=
    underscore_notMem_of_mem_words hword
  rw [capitalizeLaterWords_eq_joinWords]
  cases hcases : words tag with
  | nil => exact List.not_mem_nil
  | cons first later =>
    rw [hcases] at hwords
    rw [joinWords, List.mem_append, List.mem_flatMap]
    rintro (hfirst | ⟨word, hword, hmem⟩)
    · exact hwords first List.mem_cons_self hfirst
    · exact underscore_notMem_capitalizeFirst (hwords word (List.mem_cons_of_mem _ hword)) hmem

/-- The camel case of a joined tag goes on in Pascal case, once it has begun. -/
theorem camel_append {first : String} (h : words first.toList ≠ []) (second : String) :
    camel (first ++ "_" ++ second) = camel first ++ pascal second := by
  rw [camel, toList_append_underscore, capitalizeLaterWords_eq_joinWords, words_append_underscore,
    joinWords_append h, ← capitalizeLaterWords_eq_joinWords, ← capitalizeWords_eq_flatMap_words,
    String.ofList_append]
  rfl

/-- What is put in front of a tag without any words leaves no trace in a camel case. -/
theorem camel_append_of_words_eq_nil {first : String} (h : words first.toList = [])
    (second : String) : camel (first ++ "_" ++ second) = camel second := by
  rw [camel, toList_append_underscore, capitalizeLaterWords_eq_joinWords, words_append_underscore,
    h, List.nil_append, ← capitalizeLaterWords_eq_joinWords]
  rfl

/-- Names are made of the words of tags. -/
theorem wordByWord : WordByWord pascal camel where
  pascal_words tag := by rw [pascal, capitalizeWords_eq_flatMap_words]
  camel_words tag := by rw [camel, capitalizeLaterWords_eq_joinWords]
  pascal_joined := pascal_append
  camel_joined first second h := by
    obtain ⟨c, hc, hletter⟩ := h
    exact camel_append (fun hnil => hletter (words_eq_nil_iff.mp hnil c hc)) second
  camel_skipped first second h := camel_append_of_words_eq_nil (words_eq_nil_iff.mpr h) second
  pascal_camel tag := by
    rw [pascal, camel, String.toList_ofList,
      capitalizeWords_true_of_notMem (underscore_notMem_capitalizeLaterWords _),
      capitalizeFirst_capitalizeLaterWords]
    rfl
  camel_camel tag := by
    rw [camel, camel, String.toList_ofList,
      capitalizeLaterWords_of_notMem (underscore_notMem_capitalizeLaterWords _)]
  respelled first second h := by
    have hwords := respelled_iff.mp h
    constructor
    · rw [pascal, pascal, capitalizeWords_eq_flatMap_words, hwords,
        capitalizeWords_eq_flatMap_words]
    · rw [camel, camel, capitalizeLaterWords_eq_joinWords, hwords,
        capitalizeLaterWords_eq_joinWords]

end Name

/-- A synthesized domain is named after its tag. -/
theorem Domain.name_eq_pascal_tag {decl : Decl.Domain} {domain : Domain}
    (hok : Domain.synthesize decl = .ok domain) : domain.name = Name.pascal domain.tag := by
  rw [Synthesis.name_of_synthesize hok, Compilation.tag_of_synthesize hok]

/-- The difference between synthesized domains is named after its tag. -/
theorem Difference.name_of_between {sourceDecl destinationDecl : Decl.Domain}
    {source destination : Domain} {transform : Transform}
    (hsource : Domain.synthesize sourceDecl = .ok source)
    (hdestination : Domain.synthesize destinationDecl = .ok destination)
    (hok : Transform.between source destination = .ok transform) :
    transform.difference.name = Name.pascal transform.difference.tag ++ "Difference" := by
  have htransform := isTransform_of_between (Synthesis.coherent_of_synthesize hsource).tags
    (Synthesis.coherent_of_synthesize hdestination) hok
  have htag : transform.difference.tag = source.tag ++ "_" ++ "to" ++ "_" ++ destination.tag := by
    have hjoint : "_to_" = "_" ++ "to" ++ "_" := by decide
    rw [htransform.tag, hjoint]
    simp only [String.append_assoc]
  have hto : Name.pascal "to" = "To" := by decide
  rw [htransform.name, htag, Name.pascal_append, Name.pascal_append, hto,
    Domain.name_eq_pascal_tag hsource, Domain.name_eq_pascal_tag hdestination]

/-- **The laws of names.** Names are made of the words of tags, and tags can be respelled to one
another exactly if they have the same words. In particular the difference between synthesized
domains is named after its tag. -/
theorem Name.wordByWord_and_name_of_between :
    Name.WordByWord Name.pascal Name.camel ∧
    (∀ first second, Name.Respelled first second ↔
      Name.words first.toList = Name.words second.toList) ∧
    ∀ {sourceDecl destinationDecl source destination transform},
      Domain.synthesize sourceDecl = .ok source →
      Domain.synthesize destinationDecl = .ok destination →
      Transform.between source destination = .ok transform →
      transform.difference.name = Name.pascal transform.difference.tag ++ "Difference" :=
  ⟨Name.wordByWord, fun _ _ => Name.respelled_iff, Difference.name_of_between⟩

/-- Two versions of a domain whose tags have underscores that separate nothing. The first word of
the earlier one begins with a character of two in upper case. -/
def spacedOut : Decl.Domain × Decl.Domain :=
  (⟨"_ßig__num_", [⟨"num", .product, [⟨"value", "int", .required⟩]⟩], []⟩,
    ⟨"v__2", [⟨"num", .product, [⟨"value", "int", .variadic⟩]⟩], []⟩)

theorem Name.wordByWord_and_name_of_between_spacedOut : ∃ source destination transform,
    Domain.synthesize spacedOut.1 = .ok source ∧ Domain.synthesize spacedOut.2 = .ok destination ∧
      Transform.between source destination = .ok transform ∧
      transform.difference.tag = "_ßig__num__to_v__2" ∧
      transform.difference.name = "SSigNumToV2" ++ "Difference" ∧
      Name.Respelled "_ßig__num_" "ßig_num" ∧ Name.camel "_ßig__num_" = "ßigNum" ∧
      Name.camel ("_ßig__num_" ++ "_" ++ "to_v__2") = "ßigNum" ++ "ToV2" ∧
      Name.pascal (Name.camel "_ßig__num_") = "SSigNum" := by
  obtain ⟨hnames, hrespelled, hname⟩ := Name.wordByWord_and_name_of_between
  obtain ⟨source, destination, transform, hsource, hdestination, hok, htag⟩ :
      ∃ source destination transform, Domain.synthesize spacedOut.1 = .ok source ∧
        Domain.synthesize spacedOut.2 = .ok destination ∧
        Transform.between source destination = .ok transform ∧
        transform.difference.tag = "_ßig__num__to_v__2" := ⟨_, _, _, rfl, rfl, rfl, rfl⟩
  have hspelling : Name.Respelled "_ßig__num_" "ßig_num" := (hrespelled _ _).mpr (by decide)
  have hplain : Name.camel "ßig_num" = "ßigNum" := by decide
  have hcamel : Name.camel "_ßig__num_" = "ßigNum" :=
    (hnames.respelled _ _ hspelling).2.trans hplain
  refine ⟨source, destination, transform, hsource, hdestination, hok, htag, ?_, hspelling, hcamel,
    ?_, ?_⟩
  · have hpascal : Name.pascal "_ßig__num__to_v__2" = "SSigNumToV2" := by decide
    rw [hname hsource hdestination hok, htag, hpascal]
  · have hlater : Name.pascal "to_v__2" = "ToV2" := by decide
    rw [hnames.camel_joined _ _ ⟨'n', by decide⟩, hcamel, hlater]
  · have hpascal : Name.pascal "_ßig__num_" = "SSigNum" := by decide
    rw [hnames.pascal_camel, hpascal]

end DomainEvolution

import DomainEvolution.Name
import Mathlib.Data.List.Flatten

/-!
# Words of a name

Underscores separate the words of a tag, and a generated name is read off the words alone: Pascal
case capitalizes each of them, camel case all but the first. Joining two tags by an underscore
therefore joins their Pascal cases, and the camel case of a tag, which only keeps the first
character as it stands, determines its Pascal case.
-/

namespace DomainEvolution.Name

/-- The words of a tag: what stands between its underscores, wherever something does. -/
def words (tag : List Char) : List (List Char) :=
  (tag.splitOn '_').filter (!·.isEmpty)

/-- A name with its first character in upper case. -/
def capitalizeFirst : List Char → List Char
  | [] => []
  | c :: rest => Text.uppercase c ++ rest

/-- Words one behind the other, all but the first of them capitalized. -/
def joinWords : List (List Char) → List Char
  | [] => []
  | first :: later => first ++ later.flatMap capitalizeFirst

/-! ### Reading the words of a tag -/

/-- A tag is a piece without underscores, or such a piece joined to another tag. -/
theorem induction_on_pieces {motive : List Char → Prop}
    (piece : ∀ piece, '_' ∉ piece → motive piece)
    (joined : ∀ piece rest, '_' ∉ piece → motive piece → motive rest →
      motive (piece ++ '_' :: rest))
    (tag : List Char) : motive tag := by
  by_cases hjoint : '_' ∈ tag
  · obtain ⟨first, rest, hsplit, hfirst⟩ := List.eq_append_cons_of_mem hjoint
    rw [hsplit]
    exact joined first rest hfirst (piece first hfirst) (induction_on_pieces piece joined rest)
  · exact piece tag hjoint
termination_by tag.length
decreasing_by
  rw [hsplit, List.length_append, List.length_cons]
  omega

/-- No word reaches across an underscore. -/
theorem words_append_underscore (first second : List Char) :
    words (first ++ '_' :: second) = words first ++ words second := by
  rw [words, List.splitOn_append_cons_self, List.filter_append]
  rfl

/-- A piece without underscores is a word, unless it is empty. -/
theorem words_of_notMem {piece : List Char} (h : '_' ∉ piece) :
    words piece = if piece = [] then [] else [piece] := by
  have hletters : ∀ c ∈ piece, (c == '_') = false := fun c hc => by
    rw [beq_eq_false_iff_ne]
    exact ne_of_mem_of_not_mem hc h
  rw [words, List.splitOn_eq_splitOnP, List.splitOnP_eq_singleton hletters]
  cases piece <;> rfl

/-- No underscore is left in a word. -/
theorem underscore_notMem_of_mem_words {tag word : List Char} (h : word ∈ words tag) :
    '_' ∉ word := by
  induction tag using induction_on_pieces with
  | piece piece hpiece =>
    rw [words_of_notMem hpiece] at h
    split at h
    · exact absurd h List.not_mem_nil
    · rwa [List.mem_singleton.mp h]
  | joined piece rest hpiece ihpiece ihrest =>
    rw [words_append_underscore, List.mem_append] at h
    exact h.elim ihpiece ihrest

/-- A tag has no words exactly if it consists of underscores. -/
theorem words_eq_nil_iff {tag : List Char} : words tag = [] ↔ ∀ c ∈ tag, c = '_' := by
  induction tag using induction_on_pieces with
  | piece piece hpiece =>
    rw [words_of_notMem hpiece]
    cases piece with
    | nil => simp
    | cons c rest =>
      have hc : c ≠ '_' := fun h => hpiece (h ▸ List.mem_cons_self)
      simp [hc]
  | joined piece rest hpiece ihpiece ihrest =>
    rw [words_append_underscore, List.append_eq_nil_iff, ihpiece, ihrest, List.forall_mem_append,
      List.forall_mem_cons, and_iff_right rfl]

/-! ### Reading a name character by character -/

/-- The words behind an underscore are capitalized by themselves. -/
theorem capitalizeWords_append_underscore (starting : Bool) (first second : List Char) :
    capitalizeWords starting (first ++ '_' :: second) =
      capitalizeWords starting first ++ capitalizeWords true second := by
  induction first generalizing starting with
  | nil => simp [capitalizeWords]
  | cons c rest ih =>
    simp only [List.cons_append, capitalizeWords, ih]
    by_cases hunderscore : c = '_'
    · rw [if_pos hunderscore, if_pos hunderscore]
    · rw [if_neg hunderscore, if_neg hunderscore]
      cases starting <;> simp

/-- Inside a word, characters stand as they are. -/
theorem capitalizeWords_false_of_notMem {rest : List Char} (h : '_' ∉ rest) :
    capitalizeWords false rest = rest := by
  induction rest with
  | nil => rfl
  | cons c rest ih =>
    rw [List.mem_cons, not_or] at h
    rw [capitalizeWords, if_neg (Ne.symm h.1), ih h.2]
    rfl

theorem capitalizeWords_true_of_notMem {piece : List Char} (h : '_' ∉ piece) :
    capitalizeWords true piece = capitalizeFirst piece := by
  cases piece with
  | nil => rfl
  | cons c rest =>
    rw [List.mem_cons, not_or] at h
    rw [capitalizeWords, if_neg (Ne.symm h.1), capitalizeWords_false_of_notMem h.2]
    rfl

/-- Underscores in front leave no trace. -/
theorem capitalizeLaterWords_underscore_cons (rest : List Char) :
    capitalizeLaterWords ('_' :: rest) = capitalizeLaterWords rest := by
  simp [capitalizeLaterWords]

theorem capitalizeLaterWords_cons {c : Char} (hc : c ≠ '_') (rest : List Char) :
    capitalizeLaterWords (c :: rest) = c :: capitalizeWords false rest := by
  simp [capitalizeLaterWords, hc]

theorem capitalizeLaterWords_of_notMem {piece : List Char} (h : '_' ∉ piece) :
    capitalizeLaterWords piece = piece := by
  cases piece with
  | nil => rfl
  | cons c rest =>
    rw [List.mem_cons, not_or] at h
    rw [capitalizeLaterWords_cons (Ne.symm h.1), capitalizeWords_false_of_notMem h.2]

/-! ### Names from words -/

/-- Pascal case capitalizes every word. -/
theorem capitalizeWords_eq_flatMap_words (tag : List Char) :
    capitalizeWords true tag = (words tag).flatMap capitalizeFirst := by
  induction tag using induction_on_pieces with
  | piece piece hpiece =>
    rw [capitalizeWords_true_of_notMem hpiece, words_of_notMem hpiece]
    split
    · next hnil =>
      rw [hnil]
      rfl
    · exact (List.flatMap_singleton _ _).symm
  | joined piece rest hpiece ihpiece ihrest =>
    rw [capitalizeWords_append_underscore, words_append_underscore, List.flatMap_append, ihpiece,
      ihrest]

theorem joinWords_append {first : List (List Char)} (h : first ≠ []) (later : List (List Char)) :
    joinWords (first ++ later) = joinWords first ++ later.flatMap capitalizeFirst := by
  cases first with
  | nil => exact absurd rfl h
  | cons word rest =>
    rw [List.cons_append, joinWords, joinWords, List.flatMap_append, List.append_assoc]

/-- Camel case capitalizes every word but the first. -/
theorem capitalizeLaterWords_eq_joinWords (tag : List Char) :
    capitalizeLaterWords tag = joinWords (words tag) := by
  induction tag using induction_on_pieces with
  | piece piece hpiece =>
    rw [capitalizeLaterWords_of_notMem hpiece, words_of_notMem hpiece]
    split
    · assumption
    · exact (List.append_nil _).symm
  | joined piece rest hpiece ihpiece ihrest =>
    cases piece with
    | nil =>
      rw [List.nil_append, capitalizeLaterWords_underscore_cons, ihrest]
      rfl
    | cons c piece =>
      -- The piece is the first word, so whatever follows it is capitalized as in Pascal case.
      have hfirst : words (c :: piece) = [c :: piece] := words_of_notMem hpiece
      rw [List.mem_cons, not_or] at hpiece
      rw [words_append_underscore, hfirst, List.cons_append,
        capitalizeLaterWords_cons (Ne.symm hpiece.1), capitalizeWords_append_underscore,
        capitalizeWords_false_of_notMem hpiece.2, capitalizeWords_eq_flatMap_words]
      rfl

theorem toList_append_underscore (first second : String) :
    (first ++ "_" ++ second).toList = first.toList ++ '_' :: second.toList := by
  simp

/-- The Pascal case of a joined tag joins the Pascal cases of its parts. -/
theorem pascal_append (first second : String) :
    pascal (first ++ "_" ++ second) = pascal first ++ pascal second := by
  rw [pascal, toList_append_underscore, capitalizeWords_append_underscore, String.ofList_append]
  rfl

/-- Pascal case is camel case with its first character in upper case. -/
theorem capitalizeFirst_capitalizeLaterWords (tag : List Char) :
    capitalizeFirst (capitalizeLaterWords tag) = capitalizeWords true tag := by
  -- Both skip the underscores in front; the first character behind them ends the induction.
  induction tag with
  | nil => rfl
  | cons c rest ih =>
    by_cases hunderscore : c = '_'
    · rw [hunderscore, capitalizeLaterWords_underscore_cons, ih]
      rfl
    · rw [capitalizeLaterWords_cons hunderscore, capitalizeWords, if_neg hunderscore, if_pos rfl]
      rfl

/-- Tags that generate one camel case generate one Pascal case. -/
theorem pascal_eq_of_camel_eq {first second : String} (h : camel first = camel second) :
    pascal first = pascal second := by
  have hwords : capitalizeLaterWords first.toList = capitalizeLaterWords second.toList :=
    String.ofList_injective h
  rw [pascal, pascal, ← capitalizeFirst_capitalizeLaterWords, hwords,
    capitalizeFirst_capitalizeLaterWords]

end DomainEvolution.Name

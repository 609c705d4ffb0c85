import DomainEvolution.Proofs.SpelledJson

/-!
# Values that are read or passed over

Whatever the spelling of a string, reading gives its characters, and passing over it ends in the
same place. Passing over a whole value keeps the open brackets in a list; the rounds that it takes
are bounded by the length of its text.
-/

namespace DomainEvolution.Json

/-! ### Strings -/

theorem isTrailing_of_isLeading {unit : Nat} (h : isLeading unit = true) :
    isTrailing unit = false := by
  simp only [isLeading, isTrailing, Bool.and_eq_true, Bool.and_eq_false_iff, decide_eq_true_eq,
    decide_eq_false_iff_not] at h ⊢
  omega

theorem ne_u_of_unescape? {e c : Char} (h : unescape? e = some c) : e ≠ 'u' := by
  rintro rfl
  cases h

/-- Reading a string gives the characters that it spells. -/
theorem readCharsAfter_spelled {cs text rest : List Char} (h : SpelledChars cs text rest)
    (done : List Char) :
    readCharsAfter done text = .ok (String.ofList (done.reverse ++ cs), rest) := by
  induction h generalizing done with
  | closed => simp [readCharsAfter]
  | plain hquote hbackslash hcontrol _ ih =>
    rw [readCharsAfter, if_neg (by omega), ih]
    · simp
    all_goals simp [hquote, hbackslash]
  | escaped he _ ih =>
    have hu := ne_u_of_unescape? he
    rw [readCharsAfter, he]
    · simp [ih]
    all_goals simp [hu]
  | unicode hunit hleading htrailing _ ih => simp [readCharsAfter, hunit, hleading, htrailing, ih]
  | pair hleading hisLeading htrailing hisTrailing _ ih =>
    simp [readCharsAfter, hleading, hisLeading, isTrailing_of_isLeading hisLeading, htrailing,
      hisTrailing, ih]

theorem readChars_spelled {s : String} {text rest : List Char}
    (h : SpelledChars s.toList text rest) : readChars text = .ok (s, rest) := by
  rw [readChars, readCharsAfter_spelled h]
  simp

/-- Passing over a string ends behind it. -/
theorem skipChars_spelled {cs text rest : List Char} (h : SpelledChars cs text rest) :
    skipChars text = .ok rest := by
  induction h with
  | closed => simp [skipChars]
  | plain hquote hbackslash hcontrol _ ih =>
    rw [skipChars, if_neg (by omega), ih]
    all_goals simp [hquote, hbackslash]
  | escaped he _ ih =>
    have hu := ne_u_of_unescape? he
    rw [skipChars, he]
    · exact ih
    all_goals simp [hu]
  | unicode hunit _ _ _ ih => simp [skipChars, hunit, ih]
  | pair hleading _ htrailing _ _ ih => simp [skipChars, hleading, htrailing, ih]

/-! ### Numbers -/

/-- A positive number is written without a leading zero. -/
theorem head?_toDigits_ne_zero {n : Nat} (hn : 0 < n) : (Nat.toDigits 10 n).head? ≠ some '0' := by
  induction n using Nat.strongRecOn with
  | ind n ih =>
    rw [Nat.toDigits_eq_if (by decide)]
    split_ifs with hlt
    · simp only [List.head?_cons, ne_eq, Option.some.injEq, Nat.digitChar_eq_zero]
      omega
    · rw [List.head?_append_of_ne_nil _ Nat.toDigits_ne_nil]
      exact ih (n / 10) (by omega) (by omega)

theorem toDigits_ne_zero_cons (n : Nat) (d : Char) (digits : List Char) :
    Nat.toDigits 10 n ≠ '0' :: d :: digits := by
  intro h
  rcases Nat.eq_zero_or_pos n with rfl | hn
  · simp [Nat.toDigits_zero] at h
  · exact head?_toDigits_ne_zero hn (by rw [h, List.head?_cons])

theorem skipExponent_of_sign {negative : Bool} {text start digits rest : List Char}
    (hsign : SpelledSign negative text start) (hdigits : digits ≠ [])
    (h : start.span isDigit = (digits, rest)) : skipExponent text = .ok rest := by
  obtain ⟨d, digits, rfl⟩ := List.exists_cons_of_ne_nil hdigits
  unfold skipExponent
  cases hsign with
  | @bare c text hc =>
    split
    case h_1 heq => exact absurd (List.cons.inj heq).1 (ne_of_isDigit hc rfl)
    case h_2 heq => exact absurd (List.cons.inj heq).1 (ne_of_isDigit hc rfl)
    case h_3 => simp only [h]
  | plus | minus => simp only [h]

/-- Passing over a power of ten ends behind it. -/
theorem skipExponentIfAny_spelled {exponent : Option Int} {text rest : List Char}
    (h : SpelledExponent exponent text rest) : skipExponentIfAny text = .ok rest := by
  cases h with
  | none hlower hupper =>
    unfold skipExponentIfAny
    split
    · simp at hlower
    · simp at hupper
    · rfl
  | some hmark hsign hdigits h _ =>
    have hskip := skipExponent_of_sign hsign hdigits h
    rcases hmark with rfl | rfl <;> exact hskip

/-- Passing over a number ends behind it. -/
theorem skipUnsigned_spelled {n : Numeral} {text rest : List Char}
    (h : SpelledUnsigned n text rest) : skipUnsigned text = .ok rest := by
  obtain ⟨hwhole, hfraction, hexponent⟩ := h
  have hexponent := skipExponentIfAny_spelled hexponent
  generalize n.fraction = fraction at hfraction
  unfold skipUnsigned
  rw [hwhole]
  split
  case h_1 heq => exact absurd (Prod.mk.inj heq).1 Nat.toDigits_ne_nil
  case h_2 heq => exact absurd (Prod.mk.inj heq).1 (toDigits_ne_zero_cons _ _ _)
  case h_3 heq =>
    obtain ⟨-, rfl⟩ := Prod.mk.inj heq
    cases hfraction with
    | none h => exact absurd rfl h
    | some hdigits h =>
      obtain ⟨d, digits, hcons⟩ := List.exists_cons_of_ne_nil hdigits
      rw [h, hcons]
      exact hexponent
  case h_4 hpoint heq =>
    obtain ⟨-, rfl⟩ := Prod.mk.inj heq
    cases hfraction with
    | none => exact hexponent
    | some => exact absurd rfl (hpoint _)

theorem skipNumber_spelled {n : Numeral} {text rest : List Char}
    (h : SpelledNumeral n text rest) : skipNumber text = .ok rest := by
  cases h with
  | positive _ h =>
    obtain ⟨c, tail, rfl, hc⟩ := h.exists_digit
    have hminus := ne_of_isDigit (d := '-') hc rfl
    rw [skipNumber]
    · exact skipUnsigned_spelled h
    · simp [hminus]
  | negative _ h => exact skipUnsigned_spelled h

/-! ### Values -/

theorem expectColon_eq_ok {text rest : List Char} (h : skipBlanks text = ':' :: rest) :
    expectColon text = .ok rest := by
  simp only [expectColon, h]

theorem skipKey_spelled {key : String} {text chars behindKey rest : List Char}
    (hopen : skipBlanks text = '"' :: chars) (hkey : SpelledChars key.toList chars behindKey)
    (hcolon : skipBlanks behindKey = ':' :: rest) : skipKey text = .ok rest := by
  rw [skipKey, hopen]
  change skipChars chars >>= expectColon = _
  rw [skipChars_spelled hkey]
  exact expectColon_eq_ok hcolon

theorem skipKey_skipBlanks (text : List Char) : skipKey (skipBlanks text) = skipKey text := by
  simp only [skipKey, skipBlanks_skipBlanks]

/-- A text that begins like a number can only be a number. -/
theorem skipScalar_of_beginsNumber {c : Char} {text : List Char} (h : beginsNumber c = true) :
    skipScalar (c :: text) = skipNumber (c :: text) := by
  rw [skipScalar]
  · exact if_pos h
  all_goals exact fun hc => ne_of_beginsNumber h rfl hc

/-- The place in front of the first item of a bracket, or of a later one. -/
def Place.before (first : Bool) : Place := if first then .opened else .behind

section Rounds

variable {rounds : Nat} {brackets : List Bracket} {text rest : List Char}

/-- Blanks in front of a value take no round. -/
theorem skipFrom_value_skipBlanks (text : List Char) :
    skipFrom rounds .value brackets (skipBlanks text) = skipFrom rounds .value brackets text := by
  cases rounds with
  | zero => rfl
  | succ rounds => rw [skipFrom, skipFrom, skipBlanks_skipBlanks]

/-- A value without brackets takes one round. -/
theorem skipFrom_scalar {c : Char} {tail : List Char} (h : skipBlanks text = c :: tail)
    (hlist : c ≠ '[') (hobject : c ≠ '\x7b') (hscalar : skipScalar (c :: tail) = .ok rest)
    (hlt : rest.length < text.length) :
    ∃ used, used + 1 + 2 * rest.length ≤ 2 * text.length ∧ ∀ rounds brackets,
      skipFrom (rounds + used) .value brackets text = skipFrom rounds .behind brackets rest := by
  refine ⟨1, by omega, fun rounds brackets => ?_⟩
  rw [skipFrom, h]
  split
  case h_1 heq => exact absurd (List.cons.inj heq).1 hlist
  case h_2 heq => exact absurd (List.cons.inj heq).1 hobject
  case h_3 =>
    rw [hscalar]
    rfl

theorem skipFrom_close {bracket : Bracket} (first : Bool)
    (h : skipBlanks text = bracket.closing :: rest) :
    skipFrom (rounds + 1) (.before first) (bracket :: brackets) text =
      skipFrom rounds .behind brackets rest := by
  cases first <;> simp [Place.before, skipFrom, h]

/-- In front of an item, a round leads to the value of the item. -/
theorem skipFrom_item (bracket : Bracket) {first : Bool} {start opened inner tail : List Char}
    {c : Char} (hseparated : Separated first text start) (h : skipBlanks start = c :: tail)
    (hc : c ≠ bracket.closing) (hopened : skipToItem bracket (skipBlanks start) = .ok opened)
    (hbehind : skipToItem bracket start = .ok inner)
    (hblanks : skipBlanks opened = skipBlanks inner) :
    skipFrom (rounds + 1) (.before first) (bracket :: brackets) text =
      skipFrom rounds .value (bracket :: brackets) inner := by
  rw [← skipFrom_value_skipBlanks inner]
  cases hseparated with
  | first =>
    rw [← hblanks, skipFrom_value_skipBlanks]
    simp only [Place.before, if_true, skipFrom, h, if_neg hc, h ▸ hopened]
    rfl
  | comma hcomma =>
    rw [skipFrom_value_skipBlanks]
    have hclosing : ',' ≠ bracket.closing := by cases bracket <;> decide
    simp only [Place.before, Bool.false_eq_true, if_false, if_true, skipFrom, hcomma,
      if_neg hclosing, hbehind]
    rfl

end Rounds

mutual

/-- A value is passed over in a number of rounds that its length bounds: each bracket and each item
takes a round, and each of them takes a character. -/
theorem skipFrom_spelled : ∀ {value : Json} {text rest : List Char}, Spelled value text rest →
    ∃ used, used + 1 + 2 * rest.length ≤ 2 * text.length ∧ ∀ rounds brackets,
      skipFrom (rounds + used) .value brackets text = skipFrom rounds .behind brackets rest
  | _, _, _, .null h =>
    skipFrom_scalar h (by decide) (by decide) rfl (Spelled.null h).length_lt
  | _, _, _, .boolTrue h =>
    skipFrom_scalar h (by decide) (by decide) rfl (Spelled.boolTrue h).length_lt
  | _, _, _, .boolFalse h =>
    skipFrom_scalar h (by decide) (by decide) rfl (Spelled.boolFalse h).length_lt
  | _, _, _, .number h => by
    obtain ⟨c, tail, htext, hc⟩ := h.exists_head
    refine skipFrom_scalar htext (ne_of_beginsNumber hc rfl) (ne_of_beginsNumber hc rfl) ?_
      (Spelled.number h).length_lt
    rw [skipScalar_of_beginsNumber hc, ← htext]
    exact skipNumber_spelled h
  | _, _, _, .string hopen h =>
    skipFrom_scalar hopen (by decide) (by decide) (skipChars_spelled h)
      (Spelled.string hopen h).length_lt
  | _, text, rest, .array hopen h => by
    have hlt := length_lt_of_skipBlanks hopen
    obtain ⟨used, hused, hskip⟩ := skipItems_spelled h
    refine ⟨used + 1, by omega, fun rounds brackets => ?_⟩
    rw [← Nat.add_assoc, skipFrom, hopen]
    exact hskip rounds brackets
  | _, text, rest, .object hopen h => by
    have hlt := length_lt_of_skipBlanks hopen
    obtain ⟨used, hused, hskip⟩ := skipMembers_spelled h
    refine ⟨used + 1, by omega, fun rounds brackets => ?_⟩
    rw [← Nat.add_assoc, skipFrom, hopen]
    exact hskip rounds brackets

theorem skipItems_spelled : ∀ {first : Bool} {values : List Json} {text rest : List Char},
    SpelledItems first values text rest →
    ∃ used, used + 2 * rest.length ≤ 2 * text.length ∧ ∀ rounds brackets,
      skipFrom (rounds + used) (.before first) (.list :: brackets) text =
        skipFrom rounds .behind brackets rest
  | first, _, text, rest, .closed h => by
    have hlt := length_lt_of_skipBlanks h
    exact ⟨1, by omega, fun rounds brackets => skipFrom_close first h⟩
  | first, _, text, rest, .item hseparated hvalue h => by
    have hle := hseparated.length_le
    obtain ⟨usedValue, husedValue, hskipValue⟩ := skipFrom_spelled hvalue
    obtain ⟨used, hused, hskip⟩ := skipItems_spelled h
    obtain ⟨c, tail, hstart, hc, -⟩ := hvalue.exists_head
    refine ⟨used + usedValue + 1, by omega, fun rounds brackets => ?_⟩
    rw [← Nat.add_assoc, ← Nat.add_assoc,
      skipFrom_item .list hseparated hstart hc rfl rfl (skipBlanks_skipBlanks _), hskipValue]
    exact hskip rounds brackets

theorem skipMembers_spelled : ∀ {first : Bool} {members : List (String × Json)}
    {text rest : List Char}, SpelledMembers first members text rest →
    ∃ used, used + 2 * rest.length ≤ 2 * text.length ∧ ∀ rounds brackets,
      skipFrom (rounds + used) (.before first) (.object :: brackets) text =
        skipFrom rounds .behind brackets rest
  | first, _, text, rest, .closed h => by
    have hlt := length_lt_of_skipBlanks h
    exact ⟨1, by omega, fun rounds brackets => skipFrom_close first h⟩
  | first, _, text, rest, .member hseparated hopen hkey hcolon hvalue h => by
    have hle := hseparated.length_le
    have hlength := hkey.length_lt
    have hlength' := length_lt_of_skipBlanks hopen
    have hlength'' := length_lt_of_skipBlanks hcolon
    obtain ⟨usedValue, husedValue, hskipValue⟩ := skipFrom_spelled hvalue
    obtain ⟨used, hused, hskip⟩ := skipMembers_spelled h
    have hbehind := skipKey_spelled hopen hkey hcolon
    have hopened := (skipKey_skipBlanks _).trans hbehind
    refine ⟨used + usedValue + 1, by omega, fun rounds brackets => ?_⟩
    rw [← Nat.add_assoc, ← Nat.add_assoc,
      skipFrom_item .object hseparated hopen (by decide) hopened hbehind rfl, hskipValue]
    exact hskip rounds brackets

end

/-- Passing over a value ends behind it, whatever its spelling. -/
theorem skipValue_spelled {value : Json} {text rest : List Char} (h : Spelled value text rest) :
    skipValue text = .ok rest := by
  obtain ⟨used, hused, hskip⟩ := skipFrom_spelled h
  have hlt := h.length_lt
  have hrounds : 2 * text.length + 2 = (2 * text.length + 1 - used + 1) + used := by omega
  rw [skipValue, hrounds, hskip, skipFrom]
  simp

end DomainEvolution.Json

import DomainEvolution.Json.Skip
import DomainEvolution.Json.Writer
import Mathlib.Data.List.DropRight
import Mathlib.Data.List.TakeDrop

/-!
# The spellings of a JSON value

A value has many texts: blanks may stand between its parts, the characters of a string may be
escaped, and the exponent of a number may be written in several ways. A spelling relates a value to
a text that begins with it and to the rest of that text, just as a reader goes from a text to the
text behind what it has read.
-/

namespace DomainEvolution.Json

/-! ### Strings and numbers -/

/-- The rest of a string, up to the text behind its closing quote. -/
inductive SpelledChars : List Char → List Char → List Char → Prop
  | closed {rest : List Char} : SpelledChars [] ('"' :: rest) rest
  | plain {c : Char} {cs text rest : List Char} (hquote : c ≠ '"') (hbackslash : c ≠ '\\')
      (hcontrol : 32 ≤ c.toNat) (h : SpelledChars cs text rest) :
      SpelledChars (c :: cs) (c :: text) rest
  | escaped {e c : Char} {cs text rest : List Char} (he : unescape? e = some c)
      (h : SpelledChars cs text rest) : SpelledChars (c :: cs) ('\\' :: e :: text) rest
  | unicode {a b c d : Char} {unit : Nat} {cs text rest : List Char}
      (hunit : hexQuad? a b c d = some unit) (hleading : isLeading unit = false)
      (htrailing : isTrailing unit = false) (h : SpelledChars cs text rest) :
      SpelledChars (Char.ofNat unit :: cs) ('\\' :: 'u' :: a :: b :: c :: d :: text) rest
  | pair {a b c d e f g k : Char} {leading trailing : Nat} {cs text rest : List Char}
      (hleading : hexQuad? a b c d = some leading) (hisLeading : isLeading leading = true)
      (htrailing : hexQuad? e f g k = some trailing) (hisTrailing : isTrailing trailing = true)
      (h : SpelledChars cs text rest) :
      SpelledChars (pairChar leading trailing :: cs)
        ('\\' :: 'u' :: a :: b :: c :: d :: '\\' :: 'u' :: e :: f :: g :: k :: text) rest

/-- The digits behind a decimal point, with the point, if there are any. -/
inductive SpelledFraction : List (Fin 10) → List Char → List Char → Prop
  | none {text : List Char} (h : text.head? ≠ some '.') : SpelledFraction [] text text
  | some {digits : List (Fin 10)} {text rest : List Char} (hdigits : digits ≠ [])
      (h : text.span isDigit = (digits.map fun d => Char.ofNat (48 + d.val), rest)) :
      SpelledFraction digits ('.' :: text) rest

/-- The sign of an exponent; without one it is not negative. -/
inductive SpelledSign : Bool → List Char → List Char → Prop
  | bare {c : Char} {text : List Char} (h : isDigit c = true) :
      SpelledSign false (c :: text) (c :: text)
  | plus {text : List Char} : SpelledSign false ('+' :: text) text
  | minus {text : List Char} : SpelledSign true ('-' :: text) text

/-- The number that decimal digits stand for. -/
def decimal (digits : List Char) : Nat := digits.foldl (fun n c => n * 10 + digitValue c) 0

/-- The power of ten behind a number, if there is one. -/
inductive SpelledExponent : Option Int → List Char → List Char → Prop
  | none {text : List Char} (hlower : text.head? ≠ some 'e') (hupper : text.head? ≠ some 'E') :
      SpelledExponent none text text
  | some {mark : Char} {negative : Bool} {value : Int} {digits text start rest : List Char}
      (hmark : mark = 'e' ∨ mark = 'E') (hsign : SpelledSign negative text start)
      (hdigits : digits ≠ []) (h : start.span isDigit = (digits, rest))
      (hvalue : value = if negative then -(decimal digits : Int) else decimal digits) :
      SpelledExponent (some value) (mark :: text) rest

/-- A number from its first digit on. -/
inductive SpelledUnsigned (n : Numeral) : List Char → List Char → Prop
  | parts {text behindWhole behindFraction rest : List Char}
      (hwhole : text.span isDigit = (Nat.toDigits 10 n.whole, behindWhole))
      (hfraction : SpelledFraction n.fraction behindWhole behindFraction)
      (hexponent : SpelledExponent n.exponent behindFraction rest) : SpelledUnsigned n text rest

/-- A number from its sign on. -/
inductive SpelledNumeral (n : Numeral) : List Char → List Char → Prop
  | positive {text rest : List Char} (hsign : n.negative = false)
      (h : SpelledUnsigned n text rest) : SpelledNumeral n text rest
  | negative {text rest : List Char} (hsign : n.negative = true)
      (h : SpelledUnsigned n text rest) : SpelledNumeral n ('-' :: text) rest

/-! ### Values -/

/-- What stands between two items: a comma, but nothing before the first one. -/
inductive Separated : Bool → List Char → List Char → Prop
  | first {text : List Char} : Separated true text text
  | comma {text rest : List Char} (h : skipBlanks text = ',' :: rest) : Separated false text rest

mutual

/-- A value, after blanks that may stand before it. -/
inductive Spelled : Json → List Char → List Char → Prop
  | null {text rest : List Char} (h : skipBlanks text = 'n' :: 'u' :: 'l' :: 'l' :: rest) :
      Spelled .null text rest
  | boolTrue {text rest : List Char} (h : skipBlanks text = 't' :: 'r' :: 'u' :: 'e' :: rest) :
      Spelled (.bool true) text rest
  | boolFalse {text rest : List Char}
      (h : skipBlanks text = 'f' :: 'a' :: 'l' :: 's' :: 'e' :: rest) :
      Spelled (.bool false) text rest
  | number {n : Numeral} {text rest : List Char} (h : SpelledNumeral n (skipBlanks text) rest) :
      Spelled (.number n) text rest
  | string {s : String} {text chars rest : List Char} (hopen : skipBlanks text = '"' :: chars)
      (h : SpelledChars s.toList chars rest) : Spelled (.string s) text rest
  | array {items : List Json} {text inner rest : List Char}
      (hopen : skipBlanks text = '[' :: inner) (h : SpelledItems true items inner rest) :
      Spelled (.array items) text rest
  | object {members : List (String × Json)} {text inner rest : List Char}
      (hopen : skipBlanks text = '\x7b' :: inner) (h : SpelledMembers true members inner rest) :
      Spelled (.object members) text rest

/-- The items of an array that are still to come, and its closing bracket. -/
inductive SpelledItems : Bool → List Json → List Char → List Char → Prop
  | closed {first : Bool} {text rest : List Char} (h : skipBlanks text = ']' :: rest) :
      SpelledItems first [] text rest
  | item {first : Bool} {value : Json} {values : List Json} {text start behind rest : List Char}
      (hseparated : Separated first text start) (hvalue : Spelled value start behind)
      (h : SpelledItems false values behind rest) : SpelledItems first (value :: values) text rest

/-- The members of an object that are still to come, and its closing bracket. -/
inductive SpelledMembers : Bool → List (String × Json) → List Char → List Char → Prop
  | closed {first : Bool} {text rest : List Char} (h : skipBlanks text = '\x7d' :: rest) :
      SpelledMembers first [] text rest
  | member {first : Bool} {key : String} {value : Json} {members : List (String × Json)}
      {text start chars behindKey colon behind rest : List Char}
      (hseparated : Separated first text start) (hopen : skipBlanks start = '"' :: chars)
      (hkey : SpelledChars key.toList chars behindKey)
      (hcolon : skipBlanks behindKey = ':' :: colon) (hvalue : Spelled value colon behind)
      (h : SpelledMembers false members behind rest) :
      SpelledMembers first ((key, value) :: members) text rest

end

/-! ### Spellings are read from left to right -/

theorem skipBlanks_skipBlanks (text : List Char) :
    skipBlanks (skipBlanks text) = skipBlanks text :=
  List.dropWhile_idempotent _ _

/-- A text that begins with no blank is left as it is. -/
theorem skipBlanks_cons {c : Char} {text : List Char} (h : isBlank c = false) :
    skipBlanks (c :: text) = c :: text := by
  simp [skipBlanks, h]

theorem length_lt_of_skipBlanks {c : Char} {text rest : List Char}
    (h : skipBlanks text = c :: rest) : rest.length < text.length := by
  have hle : (skipBlanks text).length ≤ text.length := List.length_dropWhile_le _ _
  rw [h, List.length_cons] at hle
  omega

/-- Some digits are in front of a text, and then the rest. -/
theorem eq_append_of_span {digits text rest : List Char} (h : text.span isDigit = (digits, rest)) :
    text = digits ++ rest := by
  rw [List.span_eq_takeWhile_dropWhile, Prod.mk.injEq] at h
  rw [← h.1, ← h.2, List.takeWhile_append_dropWhile]

/-- What is split off as digits begins with a digit. -/
theorem isDigit_of_span {c : Char} {digits text rest : List Char}
    (h : text.span isDigit = (c :: digits, rest)) : isDigit c = true := by
  rw [List.span_eq_takeWhile_dropWhile, Prod.mk.injEq] at h
  exact List.all_eq_true.mp (List.all_takeWhile (p := isDigit)) c (h.1 ▸ List.mem_cons_self)

/-- A digit is no other character. -/
theorem ne_of_isDigit {c d : Char} (hc : isDigit c = true) (hd : isDigit d = false) : c ≠ d := by
  rintro rfl
  rw [hc] at hd
  cases hd

theorem length_lt_of_span {digits text rest : List Char} (hdigits : digits ≠ [])
    (h : text.span isDigit = (digits, rest)) : rest.length < text.length := by
  have hpos := List.length_pos_iff.mpr hdigits
  rw [eq_append_of_span h, List.length_append]
  omega

theorem SpelledChars.length_lt {cs text rest : List Char} (h : SpelledChars cs text rest) :
    rest.length < text.length := by
  induction h with
  | closed => simp
  | plain _ _ _ _ ih | escaped _ _ ih | unicode _ _ _ _ ih | pair _ _ _ _ _ ih =>
    simp only [List.length_cons]
    omega

theorem SpelledFraction.length_le {digits : List (Fin 10)} {text rest : List Char}
    (h : SpelledFraction digits text rest) : rest.length ≤ text.length := by
  cases h with
  | none => exact le_rfl
  | some hdigits h =>
    have hlt := length_lt_of_span (by simpa using hdigits) h
    simp only [List.length_cons]
    omega

theorem SpelledExponent.length_le {exponent : Option Int} {text rest : List Char}
    (h : SpelledExponent exponent text rest) : rest.length ≤ text.length := by
  cases h with
  | none => exact le_rfl
  | some _ hsign hdigits h _ =>
    have hlt := length_lt_of_span hdigits h
    cases hsign with
    | bare | plus | minus =>
      simp only [List.length_cons] at hlt ⊢
      omega

theorem SpelledUnsigned.length_lt {n : Numeral} {text rest : List Char}
    (h : SpelledUnsigned n text rest) : rest.length < text.length := by
  obtain ⟨hwhole, hfraction, hexponent⟩ := h
  have hwhole := length_lt_of_span Nat.toDigits_ne_nil hwhole
  have hfraction := hfraction.length_le
  have hexponent := hexponent.length_le
  omega

theorem SpelledNumeral.length_lt {n : Numeral} {text rest : List Char}
    (h : SpelledNumeral n text rest) : rest.length < text.length := by
  cases h with
  | positive _ h => exact h.length_lt
  | negative _ h =>
    have hlt := h.length_lt
    simp only [List.length_cons]
    omega

/-- A number without a sign begins with a digit. -/
theorem SpelledUnsigned.exists_digit {n : Numeral} {text rest : List Char}
    (h : SpelledUnsigned n text rest) : ∃ c tail, text = c :: tail ∧ isDigit c = true := by
  obtain ⟨hwhole, -, -⟩ := h
  cases hdigits : Nat.toDigits 10 n.whole with
  | nil => exact absurd hdigits Nat.toDigits_ne_nil
  | cons c digits =>
    rw [hdigits] at hwhole
    exact ⟨c, _, eq_append_of_span hwhole, isDigit_of_span hwhole⟩

/-- Whether numbers begin with a character. -/
def beginsNumber (c : Char) : Bool := c = '-' || isDigit c

theorem ne_of_beginsNumber {c d : Char} (hc : beginsNumber c = true)
    (hd : beginsNumber d = false) : c ≠ d := by
  rintro rfl
  rw [hc] at hd
  cases hd

theorem SpelledNumeral.exists_head {n : Numeral} {text rest : List Char}
    (h : SpelledNumeral n text rest) : ∃ c tail, text = c :: tail ∧ beginsNumber c = true := by
  cases h with
  | positive _ h =>
    obtain ⟨c, tail, htext, hc⟩ := h.exists_digit
    exact ⟨c, tail, htext, by simp [beginsNumber, hc]⟩
  | negative => exact ⟨'-', _, rfl, rfl⟩

theorem Separated.length_le {first : Bool} {text start : List Char}
    (h : Separated first text start) : start.length ≤ text.length := by
  cases h with
  | first => exact le_rfl
  | comma h => exact (length_lt_of_skipBlanks h).le

mutual

/-- A value takes at least one character. -/
theorem Spelled.length_lt : ∀ {value : Json} {text rest : List Char},
    Spelled value text rest → rest.length < text.length
  | _, _, _, .null h | _, _, _, .boolTrue h | _, _, _, .boolFalse h => by
    have := length_lt_of_skipBlanks h
    simp only [List.length_cons] at this
    omega
  | _, _, _, .number h => h.length_lt.trans_le (List.length_dropWhile_le _ _)
  | _, _, _, .string hopen h => h.length_lt.trans (length_lt_of_skipBlanks hopen)
  | _, _, _, .array hopen h => h.length_lt.trans (length_lt_of_skipBlanks hopen)
  | _, _, _, .object hopen h => h.length_lt.trans (length_lt_of_skipBlanks hopen)

theorem SpelledItems.length_lt : ∀ {first : Bool} {values : List Json} {text rest : List Char},
    SpelledItems first values text rest → rest.length < text.length
  | _, _, _, _, .closed h => length_lt_of_skipBlanks h
  | _, _, _, _, .item hseparated hvalue h =>
    (h.length_lt.trans hvalue.length_lt).trans_le hseparated.length_le

theorem SpelledMembers.length_lt : ∀ {first : Bool} {members : List (String × Json)}
    {text rest : List Char}, SpelledMembers first members text rest → rest.length < text.length
  | _, _, _, _, .closed h => length_lt_of_skipBlanks h
  | _, _, _, _, .member hseparated hopen hkey hcolon hvalue h =>
    ((((h.length_lt.trans hvalue.length_lt).trans (length_lt_of_skipBlanks hcolon)).trans
      hkey.length_lt).trans (length_lt_of_skipBlanks hopen)).trans_le hseparated.length_le

end

/-- Blanks before a value do not matter. -/
theorem Spelled.skipBlanks {value : Json} {text rest : List Char} (h : Spelled value text rest) :
    Spelled value (skipBlanks text) rest := by
  cases h with
  | null h => exact .null (by rwa [skipBlanks_skipBlanks])
  | boolTrue h => exact .boolTrue (by rwa [skipBlanks_skipBlanks])
  | boolFalse h => exact .boolFalse (by rwa [skipBlanks_skipBlanks])
  | number h => exact .number (by rwa [skipBlanks_skipBlanks])
  | string hopen h => exact .string (by rwa [skipBlanks_skipBlanks]) h
  | array hopen h => exact .array (by rwa [skipBlanks_skipBlanks]) h
  | object hopen h => exact .object (by rwa [skipBlanks_skipBlanks]) h

/-- A value does not begin like the end of an array, and only `null` begins like `null`. -/
theorem Spelled.exists_head {value : Json} {text rest : List Char} (h : Spelled value text rest) :
    ∃ c tail, Json.skipBlanks text = c :: tail ∧ c ≠ ']' ∧ (c = 'n' → value = .null) := by
  cases h with
  | null h => exact ⟨'n', _, h, by decide, fun _ => rfl⟩
  | boolTrue h => exact ⟨'t', _, h, by decide, fun hn => absurd hn (by decide)⟩
  | boolFalse h => exact ⟨'f', _, h, by decide, fun hn => absurd hn (by decide)⟩
  | number h =>
    obtain ⟨c, tail, htext, hc⟩ := h.exists_head
    have hn := ne_of_beginsNumber (d := 'n') hc rfl
    exact ⟨c, tail, htext, ne_of_beginsNumber hc rfl, fun h => absurd h hn⟩
  | string hopen => exact ⟨'"', _, hopen, by decide, fun hn => absurd hn (by decide)⟩
  | array hopen => exact ⟨'[', _, hopen, by decide, fun hn => absurd hn (by decide)⟩
  | object hopen => exact ⟨'\x7b', _, hopen, by decide, fun hn => absurd hn (by decide)⟩

end DomainEvolution.Json

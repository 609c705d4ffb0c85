import DomainEvolution.Json.Fault

/-!
# Blanks, identifiers and strings

The parts of a JSON text that have no structure of their own. A string whose value is wanted must
be a text of Unicode characters, so its surrogate escapes must come in pairs; a string that is only
passed over need not be.
-/

namespace DomainEvolution.Json

/-- The four blanks of JSON. -/
def isBlank (c : Char) : Bool :=
  c == ' ' || c == '\n' || c == '\t' || c == '\r'

/-- The text from its first character that is no blank. -/
def skipBlanks (text : List Char) : List Char :=
  text.dropWhile isBlank

/-- The rest of an identifier, given the characters that it must have. -/
def expectIdentifier : List Char → List Char → Except Fault (List Char)
  | [], text => .ok text
  | _ :: _, [] => .error .endInValue
  | c :: cs, d :: text => if c = d then expectIdentifier cs text else .error .expectedIdentifier

/-- The value of a hexadecimal digit, in upper or lower case. -/
def hexValue? (c : Char) : Option Nat :=
  if '0' ≤ c ∧ c ≤ '9' then some (c.toNat - 48)
  else if 'a' ≤ c ∧ c ≤ 'f' then some (c.toNat - 87)
  else if 'A' ≤ c ∧ c ≤ 'F' then some (c.toNat - 55)
  else none

/-- The value of four hexadecimal digits. -/
def hexQuad? (a b c d : Char) : Option Nat := do
  return ((← hexValue? a) * 16 + (← hexValue? b)) * 256 + ((← hexValue? c) * 16 + (← hexValue? d))

/-- The fault of an escape that has fewer than four characters behind its `u`; the four places of
the digits are counted in the UTF-8 form of the text. -/
def shortQuad (text : List Char) : Fault :=
  if text.foldl (· + ·.utf8Size) 0 < 4 then .endInString else .invalidEscape

/-- The character that a backslash and one more character stand for. -/
def unescape? (c : Char) : Option Char :=
  match c with
  | '"' => some '"'
  | '\\' => some '\\'
  | '/' => some '/'
  | 'b' => some '\x08'
  | 'f' => some '\x0c'
  | 'n' => some '\n'
  | 'r' => some '\r'
  | 't' => some '\t'
  | _ => none

/-- The first half of a surrogate pair. -/
def isLeading (unit : Nat) : Bool := 0xD800 ≤ unit && unit ≤ 0xDBFF

/-- The second half of a surrogate pair. -/
def isTrailing (unit : Nat) : Bool := 0xDC00 ≤ unit && unit ≤ 0xDFFF

/-- The character of a surrogate pair. -/
def pairChar (leading trailing : Nat) : Char :=
  Char.ofNat (0x10000 + (leading - 0xD800) * 0x400 + (trailing - 0xDC00))

/-- The fault of a text behind the first half of a pair that does not begin with an escape. -/
def brokenPair : List Char → Fault
  | [] => .endInString
  | ['\\'] => .endInString
  | '\\' :: 'u' :: text => shortQuad text
  | _ => .unfinishedPair

/-- The rest of a string, its opening quote and the characters in `done` read, the last of them
first. -/
def readCharsAfter (done : List Char) : Reader String
  | [] => .error .endInString
  | '"' :: text => .ok (String.ofList done.reverse, text)
  | '\\' :: 'u' :: a :: b :: c :: d :: text =>
    match hexQuad? a b c d with
    | none => .error .invalidEscape
    | some unit =>
      if isTrailing unit then .error .loneSurrogate
      else if isLeading unit then
        match text with
        | '\\' :: 'u' :: e :: f :: g :: h :: text =>
          match hexQuad? e f g h with
          | none => .error .invalidEscape
          | some second =>
            if isTrailing second then readCharsAfter (pairChar unit second :: done) text
            else .error .loneSurrogate
        | text => .error (brokenPair text)
      else readCharsAfter (Char.ofNat unit :: done) text
  | '\\' :: 'u' :: text => .error (shortQuad text)
  | ['\\'] => .error .endInString
  | '\\' :: c :: text =>
    match unescape? c with
    | none => .error .invalidEscape
    | some escaped => readCharsAfter (escaped :: done) text
  | c :: text =>
    if c.toNat < 32 then .error .controlCharacter else readCharsAfter (c :: done) text

/-- The rest of a string whose opening quote has been read. -/
def readChars : Reader String := readCharsAfter []

/-- The text behind a string whose opening quote has been read. -/
def skipChars : List Char → Except Fault (List Char)
  | [] => .error .endInString
  | '"' :: text => .ok text
  | '\\' :: 'u' :: a :: b :: c :: d :: text =>
    match hexQuad? a b c d with
    | none => .error .invalidEscape
    | some _ => skipChars text
  | '\\' :: 'u' :: text => .error (shortQuad text)
  | ['\\'] => .error .endInString
  | '\\' :: c :: text =>
    match unescape? c with
    | none => .error .invalidEscape
    | some _ => skipChars text
  | c :: text => if c.toNat < 32 then .error .controlCharacter else skipChars text

end DomainEvolution.Json

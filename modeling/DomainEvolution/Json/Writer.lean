import DomainEvolution.Json.Value

/-!
# JSON text

The text of a JSON value. Two layouts are in use: the compact one has no blanks at all, the pretty
one puts every item and every member on a line of its own. In strings only what must be escaped is
escaped: the quote, the backslash and the control characters below the blank.
-/

namespace DomainEvolution.Json

/-- The blanks that a layout puts between the parts of a value. -/
structure Layout where
  /-- What stands before an item at a depth, and before the bracket that closes that depth. -/
  lineBreak : Nat → List Char
  /-- What stands between the colon of a member and its value. -/
  afterColon : List Char

namespace Layout

/-- No blanks. -/
def compact : Layout where
  lineBreak _ := []
  afterColon := []

/-- One item on a line, indented by two blanks for each depth. -/
def pretty : Layout where
  lineBreak depth := '\n' :: List.replicate (2 * depth) ' '
  afterColon := [' ']

end Layout

/-- The lower-case hexadecimal digit of a number below sixteen. -/
def hexChar (n : Nat) : Char :=
  Char.ofNat (if n < 10 then 48 + n else 87 + n)

/-- One character inside a string. -/
def escape (c : Char) : List Char :=
  if c = '"' then ['\\', '"']
  else if c = '\\' then ['\\', '\\']
  else if c = '\x08' then ['\\', 'b']
  else if c = '\t' then ['\\', 't']
  else if c = '\n' then ['\\', 'n']
  else if c = '\x0c' then ['\\', 'f']
  else if c = '\r' then ['\\', 'r']
  else if c.toNat < 32 then
    ['\\', 'u', '0', '0', hexChar (c.toNat / 16), hexChar (c.toNat % 16)]
  else [c]

/-- The rest of a string, its closing quote, and the text behind it. -/
def writeChars : List Char → List Char → List Char
  | [], rest => '"' :: rest
  | c :: cs, rest => escape c ++ writeChars cs rest

/-- A string and the text behind it. -/
def writeString (text : String) (rest : List Char) : List Char :=
  '"' :: writeChars text.toList rest

/-- The digits behind a decimal point, with the point, and the text behind them. -/
def writeFraction : List (Fin 10) → List Char → List Char
  | [], rest => rest
  | digits, rest => '.' :: (digits.map fun d => Char.ofNat (48 + d.val)) ++ rest

/-- A power of ten and the text behind it. -/
def writeExponent : Option Int → List Char → List Char
  | none, rest => rest
  | some (.ofNat n), rest => 'e' :: (Nat.toDigits 10 n ++ rest)
  | some (.negSucc n), rest => 'e' :: '-' :: (Nat.toDigits 10 (n + 1) ++ rest)

/-- A number and the text behind it. -/
def writeNumeral (n : Numeral) (rest : List Char) : List Char :=
  (if n.negative then ['-'] else []) ++
    (Nat.toDigits 10 n.whole ++ writeFraction n.fraction (writeExponent n.exponent rest))

mutual

/-- A value at a depth and the text behind it. -/
def write (layout : Layout) (depth : Nat) : Json → List Char → List Char
  | .null, rest => 'n' :: 'u' :: 'l' :: 'l' :: rest
  | .bool true, rest => 't' :: 'r' :: 'u' :: 'e' :: rest
  | .bool false, rest => 'f' :: 'a' :: 'l' :: 's' :: 'e' :: rest
  | .number n, rest => writeNumeral n rest
  | .string text, rest => writeString text rest
  | .array [], rest => '[' :: ']' :: rest
  | .array (item :: items), rest =>
    '[' :: (layout.lineBreak (depth + 1) ++
      write layout (depth + 1) item
        (writeItems layout (depth + 1) items (layout.lineBreak depth ++ ']' :: rest)))
  | .object [], rest => '\x7b' :: '\x7d' :: rest
  | .object ((key, value) :: members), rest =>
    '\x7b' :: (layout.lineBreak (depth + 1) ++
      writeString key (':' :: (layout.afterColon ++
        write layout (depth + 1) value
          (writeMembers layout (depth + 1) members (layout.lineBreak depth ++ '\x7d' :: rest)))))

/-- The further items of an array and the text behind them. -/
def writeItems (layout : Layout) (depth : Nat) : List Json → List Char → List Char
  | [], rest => rest
  | item :: items, rest =>
    ',' :: (layout.lineBreak depth ++
      write layout depth item (writeItems layout depth items rest))

/-- The further members of an object and the text behind them. -/
def writeMembers (layout : Layout) (depth : Nat) : List (String × Json) → List Char → List Char
  | [], rest => rest
  | (key, value) :: members, rest =>
    ',' :: (layout.lineBreak depth ++
      writeString key (':' :: (layout.afterColon ++
        write layout depth value (writeMembers layout depth members rest))))

end

/-- The text of a value. -/
def render (layout : Layout) (value : Json) : String :=
  String.ofList (write layout 0 value [])

end DomainEvolution.Json

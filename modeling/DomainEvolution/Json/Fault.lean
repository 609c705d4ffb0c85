import DomainEvolution.Text.Quoted

/-!
# Faults of JSON text

Why a text cannot be read as a value of an expected form: it ends too early, it is not JSON, or it
is JSON of another form. Reading goes from left to right and reports the first fault it meets.
-/

namespace DomainEvolution.Json

/-- What was found in the place of something else. -/
inductive Found where
  | null
  | boolean (value : Bool)
  | integer (value : Int)
  /-- A number with a fraction, with an exponent or beyond the integers, in its shortest form. -/
  | floating (text : String)
  | string (text : String)
  | sequence
  | map
  /-- A bare variant name. -/
  | unitVariant
  deriving DecidableEq, Repr, Inhabited

namespace Found

/-- What was found, in words. -/
def render : Found → String
  | .null => "null"
  | .boolean true => "boolean `true`"
  | .boolean false => "boolean `false`"
  | .integer value => s!"integer `{value}`"
  | .floating text => s!"floating point `{text}`"
  | .string text => "string " ++ Text.quoted text
  | .sequence => "sequence"
  | .map => "map"
  | .unitVariant => "unit variant"

end Found

/-- Why a text cannot be read. -/
inductive Fault where
  | endInValue
  | endInList
  | endInObject
  | endInString
  | expectedValue
  | expectedIdentifier
  | expectedColon
  | expectedItemEnd
  | expectedMemberEnd
  | keyNotString
  | trailingComma
  | trailingCharacters
  | invalidNumber
  | numberOutOfRange
  | invalidEscape
  | loneSurrogate
  | unfinishedPair
  | controlCharacter
  | wrongType (found : Found) (expected : String)
  | wrongValue (found : Found) (expected : String)
  | wrongLength (length : Nat) (expected : String)
  | unknownVariant (name : String) (known : List String)
  | missingField (name : String)
  | duplicateField (name : String)
  deriving DecidableEq, Repr, Inhabited

/-- The three ways in which a text can fail. -/
inductive Category where
  /-- The text ends too early. -/
  | eof
  /-- The text is not JSON. -/
  | syntactic
  /-- The text is JSON of another form. -/
  | data
  deriving DecidableEq, Repr, Inhabited

/-- The names that a variant could have had, in words. -/
def oneOf : List String → String
  | [] => "there are no variants"
  | [name] => s!"expected `{name}`"
  | [first, second] => s!"expected `{first}` or `{second}`"
  | names => "expected one of " ++ ", ".intercalate (names.map fun name => s!"`{name}`")

namespace Fault

/-- The kind of failure. -/
def category : Fault → Category
  | .endInValue | .endInList | .endInObject | .endInString => .eof
  | .wrongType .. | .wrongValue .. | .wrongLength .. | .unknownVariant .. | .missingField _
  | .duplicateField _ => .data
  | _ => .syntactic

/-- The fault in words. -/
def message : Fault → String
  | .endInValue => "EOF while parsing a value"
  | .endInList => "EOF while parsing a list"
  | .endInObject => "EOF while parsing an object"
  | .endInString => "EOF while parsing a string"
  | .expectedValue => "expected value"
  | .expectedIdentifier => "expected ident"
  | .expectedColon => "expected `:`"
  | .expectedItemEnd => "expected `,` or `]`"
  | .expectedMemberEnd => "expected `,` or `\x7d`"
  | .keyNotString => "key must be a string"
  | .trailingComma => "trailing comma"
  | .trailingCharacters => "trailing characters"
  | .invalidNumber => "invalid number"
  | .numberOutOfRange => "number out of range"
  | .invalidEscape => "invalid escape"
  | .loneSurrogate => "lone leading surrogate in hex escape"
  | .unfinishedPair => "unexpected end of hex escape"
  | .controlCharacter =>
    "control character (\\u0000-\\u001F) found while parsing a string"
  | .wrongType found expected => "invalid type: " ++ found.render ++ ", expected " ++ expected
  | .wrongValue found expected => "invalid value: " ++ found.render ++ ", expected " ++ expected
  | .wrongLength length expected => s!"invalid length {length}, expected " ++ expected
  | .unknownVariant name known => s!"unknown variant `{name}`, " ++ oneOf known
  | .missingField name => s!"missing field `{name}`"
  | .duplicateField name => s!"duplicate field `{name}`"

end Fault

/-- Reads a value from the front of a text and gives the text behind it. -/
abbrev Reader (α : Type) := List Char → Except Fault (α × List Char)

end DomainEvolution.Json

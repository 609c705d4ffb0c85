import DomainEvolution.Json.Skip
import DomainEvolution.Json.Writer

/-!
# Forms of values

A codec ties a type to the JSON values that stand for its members: how they are read, and which one
is written. Codecs are put together along the structure of the type: lists, choices between named
variants, and records of named fields. What a text may leave out, and which fault a text of another
form has, is decided here once for all types.
-/

namespace DomainEvolution.Json

/-- How a type is read and written. -/
structure Codec (α : Type) where
  read : Reader α
  write : α → Json
  /-- The JSON values that stand for a value. -/
  Shows : α → Json → Prop

/-- The fault of a value of another form, from its first character on. A scalar is read, and it may
turn out not to be JSON at all. -/
def mismatch (expected : String) : List Char → Fault
  | [] => .endInValue
  | 'n' :: text =>
    match expectIdentifier ['u', 'l', 'l'] text with
    | .ok _ => .wrongType .null expected
    | .error fault => fault
  | 't' :: text =>
    match expectIdentifier ['r', 'u', 'e'] text with
    | .ok _ => .wrongType (.boolean true) expected
    | .error fault => fault
  | 'f' :: text =>
    match expectIdentifier ['a', 'l', 's', 'e'] text with
    | .ok _ => .wrongType (.boolean false) expected
    | .error fault => fault
  | '"' :: text =>
    match readChars text with
    | .ok (found, _) => .wrongType (.string found) expected
    | .error fault => fault
  | '[' :: _ => .wrongType .sequence expected
  | '\x7b' :: _ => .wrongType .map expected
  | c :: text =>
    if c = '-' || isDigit c then
      match readNumber (c :: text) with
      | .ok (n, _) => .wrongType n.found expected
      | .error fault => fault
    else .expectedValue

namespace Codec

/-- Texts. -/
def string : Codec String where
  read text :=
    match skipBlanks text with
    | '"' :: rest => readChars rest
    | text => .error (mismatch "a string" text)
  write := .string
  Shows text value := value = .string text

/-- Truth values. -/
def bool : Codec Bool where
  read text :=
    match skipBlanks text with
    | 't' :: rest => do return (true, ← expectIdentifier ['r', 'u', 'e'] rest)
    | 'f' :: rest => do return (false, ← expectIdentifier ['a', 'l', 's', 'e'] rest)
    | text => .error (mismatch "a boolean" text)
  write := .bool
  Shows b value := value = .bool b

/-- The natural number that has been read. -/
def naturalOf : Number → Except Fault Nat
  | .natural n => .ok n
  | .negative n => .error (.wrongValue (.integer (-n)) "usize")
  | .floating value => .error (.wrongType (Number.floating value).found "usize")

/-- Sizes: the natural numbers of 64 bits. -/
def size : Codec Nat where
  read text :=
    match skipBlanks text with
    | [] => .error .endInValue
    | c :: rest =>
      if c = '-' || isDigit c then do
        let (n, rest) ← readNumber (c :: rest)
        return (← naturalOf n, rest)
      else .error (mismatch "usize" (c :: rest))
  write := .nat
  Shows n value := value = .nat n ∧ n ≤ maxWord

/-- A value, or `null` for none. -/
def option {α : Type} (codec : Codec α) : Codec (Option α) where
  read text :=
    match skipBlanks text with
    | 'n' :: rest => do return (none, ← expectIdentifier ['u', 'l', 'l'] rest)
    | text => do
      let (a, rest) ← codec.read text
      return (some a, rest)
  write := .ofOption codec.write
  Shows
    | none, value => value = .null
    | some a, value => codec.Shows a value

/-- Looks for the next item of a list. The text from the item on, or nothing and the text from the
closing bracket on. -/
def nextItem (first : Bool) (text : List Char) : Except Fault (Bool × List Char) :=
  match skipBlanks text with
  | [] => .error .endInList
  | ']' :: rest => .ok (false, ']' :: rest)
  | c :: rest =>
    if first then .ok (true, c :: rest)
    else if c = ',' then
      match skipBlanks rest with
      | [] => .error .endInValue
      | ']' :: _ => .error .trailingComma
      | rest => .ok (true, rest)
    else .error .expectedItemEnd

/-- The further items of a list, those in `done` read, the last of them first, in a bounded number
of rounds. -/
def readItems {α : Type} (item : Reader α) : Nat → List α → Reader (List α)
  | 0, _, _ => .error .endInList
  | rounds + 1, done, text => do
    match ← nextItem done.isEmpty text with
    | (false, rest) => return (done.reverse, rest.drop 1)
    | (true, rest) =>
      let (a, rest) ← item rest
      readItems item rounds (a :: done) rest

/-- Lists. Each item takes at least one character. -/
def list {α : Type} (codec : Codec α) : Codec (List α) where
  read text :=
    match skipBlanks text with
    | '[' :: rest => readItems codec.read (rest.length + 1) [] rest
    | text => .error (mismatch "a sequence" text)
  write items := .array (items.map codec.write)
  Shows items value :=
    ∃ values, value = .array values ∧ values.length = items.length ∧
      ∀ pair ∈ items.zip values, codec.Shows pair.1 pair.2

end Codec

/-- One alternative of a choice: a bare name, or a name with a content. -/
inductive Variant (α : Type) where
  | unit (name : String) (value : α)
  | content (name : String) (read : Reader α)

namespace Variant

/-- The name of the alternative. -/
def name {α : Type} : Variant α → String
  | .unit name _ => name
  | .content name _ => name

/-- An alternative that holds one value of another type. -/
def holding {α β : Type} (name : String) (codec : Codec β) (wrap : β → α) : Variant α :=
  .content name fun text => do
    let (b, rest) ← codec.read text
    return (wrap b, rest)

/-- The text behind the content of an alternative without content. -/
def readUnit (text : List Char) : Except Fault (List Char) :=
  match skipBlanks text with
  | 'n' :: rest => expectIdentifier ['u', 'l', 'l'] rest
  | text => .error (mismatch "unit" text)

/-- The alternative given as a bare name. -/
def readBare {α : Type} (text : List Char) : Variant α → Except Fault (α × List Char)
  | .unit _ value => .ok (value, text)
  | .content .. => .error (.wrongType .unitVariant "newtype variant")

/-- The alternative given with a content. -/
def readContent {α : Type} (text : List Char) : Variant α → Except Fault (α × List Char)
  | .unit _ value => do return (value, ← readUnit text)
  | .content _ read => read text

/-- The alternative with a name. -/
def select {α : Type} (variants : List (Variant α)) (name : String) :
    Except Fault (Variant α) :=
  match variants.find? (·.name == name) with
  | some variant => .ok variant
  | none => .error (.unknownVariant name (variants.map (·.name)))

/-- The text behind the bracket that closes an alternative with content. -/
def expectClosed (text : List Char) : Except Fault (List Char) :=
  match skipBlanks text with
  | [] => .error .endInObject
  | '\x7d' :: rest => .ok rest
  | _ :: _ => .error .expectedValue

/-- An alternative with content, its opening bracket read. -/
def readTagged {α : Type} (variants : List (Variant α)) : Reader α := fun text =>
  match skipBlanks text with
  | [] => .error .endInObject
  | '\x7d' :: _ => .error .expectedValue
  | '"' :: rest => do
    let (name, rest) ← readChars rest
    let variant ← select variants name
    let (a, rest) ← variant.readContent (← expectColon rest)
    return (a, ← expectClosed rest)
  | _ :: _ => .error .keyNotString

/-- A choice between named alternatives: the name itself, or an object whose only key is the name.
-/
def read {α : Type} (variants : List (Variant α)) : Reader α := fun text =>
  match skipBlanks text with
  | [] => .error .endInValue
  | '"' :: rest => do
    let (name, rest) ← readChars rest
    let variant ← select variants name
    variant.readBare rest
  | '\x7b' :: rest => readTagged variants rest
  | _ :: _ => .error .expectedValue

end Variant

/-- An alternative with content as a JSON value. -/
def tagged (name : String) (content : Json) : Json := .object [(name, content)]

/-- What holds for a field that a text leaves out. -/
inductive Omission (α : Type) where
  /-- The field must be given. -/
  | refused
  /-- The field has a value if its object leaves it out; a list must give it. -/
  | fromObject (value : α)
  /-- The field has a value if its object or its list leaves it out. -/
  | allowed (value : α)

namespace Omission

/-- The value of a field that an object leaves out. -/
def inObject? {α : Type} : Omission α → Option α
  | .refused => none
  | .fromObject value => some value
  | .allowed value => some value

/-- The value of a field that a list leaves out. -/
def inList? {α : Type} : Omission α → Option α
  | .refused => none
  | .fromObject _ => none
  | .allowed value => some value

end Omission

/-- The fields of a record in declaration order. While an object is read, `σ` holds the fields that
were found; `α` holds them all. -/
structure Fields (σ α : Type) where
  /-- The number of fields. -/
  count : Nat
  /-- No field found. -/
  unread : σ
  /-- How the rest of a member is read whose key is one of the fields. -/
  member? : String → Option (σ → Reader σ)
  /-- All fields, or the first one that is missing. -/
  complete : σ → Except Fault α
  /-- The fields as the items of a list, given the fault of a list that ends early, whether an item
  may come without a comma, and the number of fields read before. -/
  inOrder : (Nat → Fault) → Bool → Nat → Reader α
  /-- The members that are written. -/
  write : α → List (String × Json)
  /-- The members that stand for all the fields: each of them once, or left out where it may be. -/
  Shows : α → List (String × Json) → Prop

namespace Fields

/-- No fields. -/
def nil : Fields Unit Unit where
  count := 0
  unread := ()
  member? _ := none
  complete _ := .ok ()
  inOrder _ _ _ text := .ok ((), text)
  write _ := []
  Shows _ _ := True

/-- Reads the value of a field behind its key; the field may not have been found before. -/
def readMember {α : Type} (name : String) (codec : Codec α) (found : Option α) :
    Reader α := fun text =>
  match found with
  | some _ => .error (.duplicateField name)
  | none => do codec.read (← expectColon text)

/-- One more field in front of others. -/
def cons {σ α β : Type} (name : String) (codec : Codec β) (omission : Omission β)
    (others : Fields σ α) : Fields (Option β × σ) (β × α) where
  count := others.count + 1
  unread := (none, others.unread)
  member? key :=
    if key = name then
      some fun found text => do
        let (b, rest) ← readMember name codec found.1 text
        return ((some b, found.2), rest)
    else
      (others.member? key).map fun read found text => do
        let (later, rest) ← read found.2 text
        return ((found.1, later), rest)
  complete found := do
    let b ←
      match found.1 with
      | some b => pure b
      | none =>
        match omission.inObject? with
        | some b => pure b
        | none => throw (.missingField name)
    let a ← others.complete found.2
    return (b, a)
  inOrder short first index text := do
    match ← Codec.nextItem first text with
    | (true, rest) =>
      let (b, rest) ← codec.read rest
      let (a, rest) ← others.inOrder short false (index + 1) rest
      return ((b, a), rest)
    | (false, rest) =>
      match omission.inList? with
      | some b =>
        let (a, rest) ← others.inOrder short first (index + 1) rest
        return ((b, a), rest)
      | none => throw (short index)
  write fields := (name, codec.write fields.1) :: others.write fields.2
  Shows fields members :=
    (match members.filter (·.1 == name) with
      | [] => omission.inObject? = some fields.1
      | [(_, value)] => codec.Shows fields.1 value
      | _ => False) ∧
      others.Shows fields.2 members

/-- Looks for the next key of an object. The text behind its opening quote, or nothing and the text
behind the closing bracket. -/
def nextKey (first : Bool) (text : List Char) : Except Fault (Bool × List Char) :=
  match skipBlanks text with
  | [] => .error .endInObject
  | '\x7d' :: rest => .ok (false, rest)
  | c :: rest =>
    if first then
      if c = '"' then .ok (true, rest) else .error .keyNotString
    else if c = ',' then
      match skipBlanks rest with
      | [] => .error .endInValue
      | '"' :: rest => .ok (true, rest)
      | '\x7d' :: _ => .error .trailingComma
      | _ :: _ => .error .keyNotString
    else .error .expectedMemberEnd

/-- The further members of an object, in a bounded number of rounds. Members that are no fields are
passed over. -/
def readMembers {σ α : Type} (fields : Fields σ α) : Nat → Bool → σ → Reader σ
  | 0, _, _, _ => .error .endInObject
  | rounds + 1, first, found, text => do
    match ← nextKey first text with
    | (false, rest) => return (found, rest)
    | (true, rest) =>
      let (key, rest) ← readChars rest
      match fields.member? key with
      | some read =>
        let (found, rest) ← read found rest
        readMembers fields rounds false found rest
      | none =>
        readMembers fields rounds false found (← skipValue (← expectColon rest))

/-- The text behind a list from which all fields have been read. -/
def expectListClosed (text : List Char) : Except Fault (List Char) :=
  match skipBlanks text with
  | [] => .error .endInList
  | ']' :: rest => .ok rest
  | ',' :: rest =>
    match skipBlanks rest with
    | ']' :: _ => .error .trailingComma
    | _ => .error .trailingCharacters
  | _ :: _ => .error .trailingCharacters

/-- The fields of a record, given as an object or as the list of their values. -/
def read {σ α : Type} (title : String) (fields : Fields σ α) : Reader α := fun text =>
  match skipBlanks text with
  | '[' :: rest => do
    let short length :=
      Fault.wrongLength length s!"struct {title} with {fields.count} elements"
    let (a, rest) ← fields.inOrder short true 0 rest
    return (a, ← expectListClosed rest)
  | '\x7b' :: rest => do
    let (found, rest) ← readMembers fields (rest.length + 1) true fields.unread rest
    return (← fields.complete found, rest)
  | text => .error (mismatch ("struct " ++ title) text)

end Fields

namespace Codec

/-- A choice between named alternatives. -/
def choice {α : Type} (variants : List (Variant α)) (write : α → Json) : Codec α where
  read := Variant.read variants
  write := write
  Shows a value := value = write a

/-- A record of fields; `build` and `parts` convert between the fields and the record. -/
def record {σ α ρ : Type} (title : String) (fields : Fields σ α) (build : α → ρ)
    (parts : ρ → α) : Codec ρ where
  read text := do
    let (a, rest) ← fields.read title text
    return (build a, rest)
  write r := .object (fields.write (parts r))
  Shows r value := ∃ members, value = .object members ∧ fields.Shows (parts r) members

/-- Reads a whole text as one value. -/
def readText {α : Type} (codec : Codec α) (text : String) : Except Fault α := do
  let (a, rest) ← codec.read text.toList
  match skipBlanks rest with
  | [] => return a
  | _ :: _ => throw .trailingCharacters

/-- Writes one value as a whole text. -/
def writeText {α : Type} (codec : Codec α) (layout : Layout) (a : α) : String :=
  render layout (codec.write a)

end Codec

end DomainEvolution.Json

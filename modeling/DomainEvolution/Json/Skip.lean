import DomainEvolution.Json.Number
import DomainEvolution.Json.Text

/-!
# Passing over a value

A value that nobody asks for is passed over and checked only for being JSON. The open brackets are
kept in a list, so values may nest to any depth.
-/

namespace DomainEvolution.Json

/-- An open bracket. -/
inductive Bracket where
  | list
  | object
  deriving DecidableEq, Repr, Inhabited

namespace Bracket

/-- The bracket that closes it. -/
def closing : Bracket → Char
  | .list => ']'
  | .object => '\x7d'

/-- The fault of a text that ends inside it. -/
def endFault : Bracket → Fault
  | .list => .endInList
  | .object => .endInObject

/-- The fault of an item that is followed by neither a comma nor the closing bracket. -/
def separatorFault : Bracket → Fault
  | .list => .expectedItemEnd
  | .object => .expectedMemberEnd

end Bracket

/-- The text behind the colon of a member. -/
def expectColon (text : List Char) : Except Fault (List Char) :=
  match skipBlanks text with
  | [] => .error .endInObject
  | ':' :: rest => .ok rest
  | _ :: _ => .error .expectedColon

/-- The text behind the key of a member and its colon, where a member must come. -/
def skipKey (text : List Char) : Except Fault (List Char) :=
  match skipBlanks text with
  | [] => .error .endInObject
  | '"' :: rest => do expectColon (← skipChars rest)
  | _ :: _ => .error .keyNotString

/-- Where a text goes on. -/
inductive Place where
  /-- Before a value. -/
  | value
  /-- Behind an opening bracket. -/
  | opened
  /-- Behind a value. -/
  | behind
  deriving DecidableEq, Repr, Inhabited

/-- The text behind a value without brackets, from the first character of the value on. -/
def skipScalar : List Char → Except Fault (List Char)
  | [] => .error .endInValue
  | 'n' :: text => expectIdentifier ['u', 'l', 'l'] text
  | 't' :: text => expectIdentifier ['r', 'u', 'e'] text
  | 'f' :: text => expectIdentifier ['a', 'l', 's', 'e'] text
  | '"' :: text => skipChars text
  | c :: text => if c = '-' || isDigit c then skipNumber (c :: text) else .error .expectedValue

/-- The text where the next item inside a bracket has its value. -/
def skipToItem (bracket : Bracket) (text : List Char) : Except Fault (List Char) :=
  match bracket with
  | .list => .ok text
  | .object => skipKey text

/-- Passes over the rest of a value inside the open brackets, the innermost first, in a bounded
number of rounds. -/
def skipFrom : Nat → Place → List Bracket → List Char → Except Fault (List Char)
  | 0, _, _, _ => .error .endInValue
  | rounds + 1, .value, brackets, text =>
    match skipBlanks text with
    | '[' :: rest => skipFrom rounds .opened (.list :: brackets) rest
    | '\x7b' :: rest => skipFrom rounds .opened (.object :: brackets) rest
    | text => do skipFrom rounds .behind brackets (← skipScalar text)
  | rounds + 1, .opened, bracket :: brackets, text =>
    match skipBlanks text with
    | [] => .error bracket.endFault
    | c :: rest =>
      if c = bracket.closing then skipFrom rounds .behind brackets rest
      else do skipFrom rounds .value (bracket :: brackets) (← skipToItem bracket (c :: rest))
  | rounds + 1, .behind, bracket :: brackets, text =>
    match skipBlanks text with
    | [] => .error bracket.endFault
    | c :: rest =>
      if c = bracket.closing then skipFrom rounds .behind brackets rest
      else if c = ',' then do
        skipFrom rounds .value (bracket :: brackets) (← skipToItem bracket rest)
      else .error bracket.separatorFault
  | _ + 1, _, [], text => .ok text

/-- The text behind a value. A value takes at most two rounds for each of its characters. -/
def skipValue (text : List Char) : Except Fault (List Char) :=
  skipFrom (2 * text.length + 2) .value [] text

end DomainEvolution.Json

import DomainEvolution.Json.Fault
import DomainEvolution.Text.Decimal

/-!
# Numbers

A number whose value is wanted is an integer if it is written without point and exponent and fits
64 bits; every other number is a double-precision one, and so is negative zero. A number that is
only passed over is checked for its form alone.
-/

namespace DomainEvolution.Json

/-- A number that has been read. -/
inductive Number where
  | natural (n : Nat)
  /-- The negative of a positive number. -/
  | negative (n : Nat)
  | floating (value : Float)

namespace Number

/-- The number as something found. -/
def found : Number → Found
  | .natural n => .integer n
  | .negative n => .integer (-n)
  | .floating value => .floating (Text.renderFloat value)

end Number

/-- The decimal digits. -/
def isDigit (c : Char) : Bool := '0' ≤ c && c ≤ '9'

/-- The value of a decimal digit. -/
def digitValue (c : Char) : Nat := c.toNat - 48

/-- The largest integer of 64 bits. -/
def maxWord : Nat := UInt64.size - 1

/-- The leading digits of a number as far as they fit 64 bits, and how many digits come after. -/
structure Significand where
  value : Nat := 0
  dropped : Nat := 0
  deriving DecidableEq, Repr, Inhabited

namespace Significand

/-- Reads one more digit; after one that did not fit, no further digit counts. -/
def push (s : Significand) (c : Char) : Significand :=
  let next := s.value * 10 + digitValue c
  if s.dropped = 0 && next ≤ maxWord then { s with value := next }
  else { s with dropped := s.dropped + 1 }

/-- Reads a run of digits. -/
def extend (s : Significand) (digits : List Char) : Significand :=
  digits.foldl push s

end Significand

/-- Tenfold powers are exact up to the rounding of the power itself; `10 ^ 308` is the largest. -/
def powerOfTen (n : Nat) : Float := Float.ofScientific 1 false n

/-- The number `significand * 10 ^ exponent`, unless it is too large. Small numbers are divided in
steps of `10 ^ 308`; after two of them nothing is left. -/
def scale? (significand : Nat) (exponent : Int) : Option Float :=
  let value := Float.ofNat significand
  match exponent with
  | .ofNat n =>
    if n ≤ 308 then
      let scaled := value * powerOfTen n
      if scaled.isInf then none else some scaled
    else if significand = 0 then some value
    else none
  | .negSucc m =>
    let n := m + 1
    if n ≤ 308 then some (value / powerOfTen n)
    else if n ≤ 616 then some (value / powerOfTen 308 / powerOfTen (n - 308))
    else some 0

/-- A double-precision number with its sign. -/
def floating (negative : Bool) (significand : Nat) (exponent : Int) : Except Fault Number :=
  match scale? significand exponent with
  | none => .error .numberOutOfRange
  | some value => .ok (.floating (if negative then -value else value))

/-- The largest exponent whose digits are counted. -/
def maxExponent : Nat := Nat.pow 2 31 - 1

/-- A number from its exponent on, the `e` read. -/
def readExponent (negative : Bool) (significand : Nat) (exponent : Int) : Reader Number :=
  fun text =>
    let (below, text) :=
      match text with
      | '+' :: rest => (false, rest)
      | '-' :: rest => (true, rest)
      | text => (false, text)
    match text.span isDigit with
    | ([], []) => .error .endInValue
    | ([], _ :: _) => .error .invalidNumber
    | (digits, rest) =>
      let power := digits.foldl (fun n c => n * 10 + digitValue c) 0
      if maxExponent < power && !below && significand != 0 then .error .numberOutOfRange
      else if maxExponent < power then
        .ok (.floating (if negative then -0.0 else 0.0), rest)
      else do
        let shift : Int := if below then -power else power
        let number ← floating negative significand (exponent + shift)
        return (number, rest)

/-- A number from its exponent on, if it has one. -/
def readExponentIfAny (negative : Bool) (significand : Nat) (exponent : Int) : Reader Number
  | 'e' :: text => readExponent negative significand exponent text
  | 'E' :: text => readExponent negative significand exponent text
  | text => do
    let number ← floating negative significand exponent
    return (number, text)

/-- A number from the digits behind its point on. -/
def readFraction (negative : Bool) (whole : Significand) : Reader Number :=
  fun text =>
    match text.span isDigit with
    | ([], []) => .error .endInValue
    | ([], _ :: _) => .error .invalidNumber
    | (digits, rest) =>
      let all := Significand.extend { value := whole.value } digits
      let used := digits.length - all.dropped
      readExponentIfAny negative all.value ((whole.dropped : Int) - used) rest

/-- An integer, if it fits 64 bits. Negative ones reach one step further down than up. -/
def integer (negative : Bool) (significand : Nat) : Number :=
  if !negative then .natural significand
  else if significand = 0 then .floating (-0.0)
  else if significand ≤ Nat.pow 2 63 then .negative significand
  else .floating (-(Float.ofNat significand))

/-- A number from its first digit on. -/
def readUnsigned (negative : Bool) : Reader Number :=
  fun text =>
    match text.span isDigit with
    | ([], []) => .error .endInValue
    | ([], _ :: _) => .error .invalidNumber
    | ('0' :: _ :: _, _) => .error .invalidNumber
    | (digits, '.' :: rest) => readFraction negative (Significand.extend {} digits) rest
    | (digits, rest) =>
      let whole := Significand.extend {} digits
      match rest with
      | 'e' :: text => readExponent negative whole.value whole.dropped text
      | 'E' :: text => readExponent negative whole.value whole.dropped text
      | rest =>
        if whole.dropped = 0 then .ok (integer negative whole.value, rest)
        else do
          let number ← floating negative whole.value whole.dropped
          return (number, rest)

/-- A number from its sign on. -/
def readNumber : Reader Number
  | '-' :: text => readUnsigned true text
  | text => readUnsigned false text

/-- The text behind the exponent of a number, the `e` read. -/
def skipExponent (text : List Char) : Except Fault (List Char) :=
  let text :=
    match text with
    | '+' :: rest => rest
    | '-' :: rest => rest
    | text => text
  match text.span isDigit with
  | ([], _) => .error .invalidNumber
  | (_ :: _, rest) => .ok rest

/-- The text behind the exponent of a number, if it has one. -/
def skipExponentIfAny : List Char → Except Fault (List Char)
  | 'e' :: text => skipExponent text
  | 'E' :: text => skipExponent text
  | text => .ok text

/-- The text behind a number, from its first digit on. -/
def skipUnsigned (text : List Char) : Except Fault (List Char) :=
  match text.span isDigit with
  | ([], _) => .error .invalidNumber
  | ('0' :: _ :: _, _) => .error .invalidNumber
  | (_ :: _, '.' :: rest) =>
    match rest.span isDigit with
    | ([], _) => .error .invalidNumber
    | (_ :: _, rest) => skipExponentIfAny rest
  | (_ :: _, rest) => skipExponentIfAny rest

/-- The text behind a number, from its sign on. -/
def skipNumber : List Char → Except Fault (List Char)
  | '-' :: text => skipUnsigned text
  | text => skipUnsigned text

end DomainEvolution.Json

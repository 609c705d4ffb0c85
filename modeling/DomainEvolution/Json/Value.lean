/-!
# JSON values

A JSON value as a tree. Object members keep their order and may repeat a key; a number keeps the
parts in which it is written.
-/

namespace DomainEvolution

/-- A number as it is written: its sign, its whole part, the digits behind the point and the power
of ten. -/
structure Numeral where
  negative : Bool := false
  whole : Nat
  fraction : List (Fin 10) := []
  exponent : Option Int := none
  deriving DecidableEq, Repr, Inhabited

/-- A JSON value. -/
inductive Json where
  | null
  | bool (value : Bool)
  | number (value : Numeral)
  | string (value : String)
  | array (items : List Json)
  | object (members : List (String × Json))
  deriving Repr, Inhabited

namespace Json

/-- A natural number as a JSON value. -/
def nat (n : Nat) : Json := .number { whole := n }

/-- A list of texts as a JSON value. -/
def strings (texts : List String) : Json := .array (texts.map .string)

/-- A value, or `null` where there is none. -/
def ofOption {α : Type} (form : α → Json) : Option α → Json
  | none => .null
  | some a => form a

end Json

end DomainEvolution

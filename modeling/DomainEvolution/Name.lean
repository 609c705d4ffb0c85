import DomainEvolution.Text.Uppercase

/-!
# Generated names

A tag is written in words joined by underscores. Domains, tuples and sums are generated under the
Pascal case of their tag, properties and builders under its camel case. Underscores only separate:
runs of them, and those at either end, leave no trace in a name.
-/

namespace DomainEvolution.Name

/-- Drops the underscores of a tag and begins each of its words in upper case; `starting` tells
whether the next character begins a word. -/
def capitalizeWords (starting : Bool) : List Char → List Char
  | [] => []
  | c :: rest =>
    if c = '_' then capitalizeWords true rest
    else if starting then Text.uppercase c ++ capitalizeWords false rest
    else c :: capitalizeWords false rest

/-- As `capitalizeWords`, but the first word keeps its first character. -/
def capitalizeLaterWords (tag : List Char) : List Char :=
  match tag.dropWhile (· == '_') with
  | [] => []
  | c :: rest => c :: capitalizeWords false rest

/-- The name of a domain, a tuple, a sum or an unresolved type: every word is capitalized. -/
def pascal (tag : String) : String :=
  String.ofList (capitalizeWords true tag.toList)

/-- The name of a property or a builder: every word but the first is capitalized. -/
def camel (tag : String) : String :=
  String.ofList (capitalizeLaterWords tag.toList)

/-- The name of a member inside its owner. -/
def qualify (owner name : String) : String :=
  owner ++ "." ++ name

end DomainEvolution.Name

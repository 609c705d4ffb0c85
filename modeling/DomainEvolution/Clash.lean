/-!
# Clashes of tags and names

Things that stand side by side need tags of their own and generated names of their own. Reading them
in order, the first one whose tag or name is taken makes a clash; a taken tag counts before a taken
name.
-/

namespace DomainEvolution

/-- Why a thing cannot stand beside earlier ones. -/
inductive Clash (α : Type) where
  /-- Its tag is taken. -/
  | tag (later : α)
  /-- Its name is taken by an earlier thing with another tag. -/
  | name (earlier later : α)
  deriving DecidableEq, Repr

namespace Clash

variable {α : Type} (tagOf nameOf : α → String)

/-- The first clash in a list whose earlier things are at hand, the latest first. -/
def findAfter? (earlier : List α) : List α → Option (Clash α)
  | [] => none
  | next :: rest =>
    if earlier.any (tagOf · == tagOf next) then some (.tag next)
    else
      match earlier.find? (nameOf · == nameOf next) with
      | some first => some (.name first next)
      | none => findAfter? (next :: earlier) rest

/-- The first clash in a list. -/
def find? (things : List α) : Option (Clash α) := findAfter? tagOf nameOf [] things

end Clash

end DomainEvolution

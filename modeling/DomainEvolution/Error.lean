/-!
# Errors

Why a declaration cannot be compiled. An error keeps its causes as data; its code and its text are
functions of them.
-/

namespace DomainEvolution

/-- Why a tuple or a sum has no constructors. -/
inductive ShapeError where
  | multipleVariadic (first second : String)
  | variadicNotLast (property : String)
  | requiredAfterOptional (property after : String)
  | nameCollision (name first second : String)
  | duplicateProperty (property : String)
  | emptySum
  deriving DecidableEq, Repr, Inhabited

namespace ShapeError

/-- The property to be mended. -/
def property? : ShapeError → Option String
  | .multipleVariadic _ second => some second
  | .variadicNotLast property => some property
  | .requiredAfterOptional property _ => some property
  | .nameCollision _ _ second => some second
  | .duplicateProperty property => some property
  | .emptySum => none

/-- The error in words. -/
def message : ShapeError → String
  | .multipleVariadic first second =>
    s!"more than one variadic property: `{first}` and `{second}`"
  | .variadicNotLast property => s!"variadic property `{property}` must be the last property"
  | .requiredAfterOptional property after =>
    s!"required property `{property}` follows optional property `{after}`"
  | .nameCollision name first second =>
    s!"properties `{first}` and `{second}` both generate the name `{name}`"
  | .duplicateProperty property => s!"property `{property}` is declared more than once"
  | .emptySum => "sum declares no variants"

end ShapeError

/-- The part that a domain plays in a transform. -/
inductive Role where
  | source
  | destination
  deriving DecidableEq, Repr, Inhabited

namespace Role

/-- The role in words. -/
def render : Role → String
  | .source => "source"
  | .destination => "destination"

end Role

/-- The stable identifier of a kind of error. -/
inductive ErrorCode where
  | e1001
  | e2001
  | e2002
  | e2003
  | e3001
  | e3002
  | e3003
  deriving DecidableEq, Repr, Inhabited

namespace ErrorCode

/-- The identifier as messages show it. -/
def render : ErrorCode → String
  | .e1001 => "E1001"
  | .e2001 => "E2001"
  | .e2002 => "E2002"
  | .e2003 => "E2003"
  | .e3001 => "E3001"
  | .e3002 => "E3002"
  | .e3003 => "E3003"

/-- Whether the error is about the shape of one member. -/
def isShapeError : ErrorCode → Bool
  | .e1001 => true
  | _ => false

/-- Whether the error is about transforms between domains. -/
def isTransformError : ErrorCode → Bool
  | .e3001 | .e3002 | .e3003 => true
  | _ => false

end ErrorCode

/-- Why a universe cannot be compiled. -/
inductive CompileError where
  | invalidShape (domain member : String) (reason : ShapeError)
  | duplicateTag (domain tag : String)
  | duplicateDomain (tag : String)
  | nameCollision (domain name first second : String)
  | unknownDomain (tag : String) (role : Role)
  /-- The chain begins and ends with the same domain. -/
  | cyclicTransform (chain : List String)
  | removedTagReferenced (source destination member property tag : String)
  deriving DecidableEq, Repr, Inhabited

namespace CompileError

/-- The identifier of the kind of error. -/
def code : CompileError → ErrorCode
  | .invalidShape .. => .e1001
  | .duplicateTag .. => .e2001
  | .duplicateDomain .. => .e2002
  | .nameCollision .. => .e2003
  | .unknownDomain .. => .e3001
  | .cyclicTransform .. => .e3002
  | .removedTagReferenced .. => .e3003

/-- The error in words, without its identifier. -/
def description : CompileError → String
  | .invalidShape domain member reason =>
    s!"invalid shape of `{member}` in domain `{domain}`: " ++ reason.message
  | .duplicateTag domain tag => s!"tag `{tag}` is declared more than once in domain `{domain}`"
  | .duplicateDomain tag => s!"domain `{tag}` is declared more than once"
  | .nameCollision domain name first second =>
    s!"tags `{first}` and `{second}` in domain `{domain}` both generate `{name}`"
  | .unknownDomain tag role => "unknown " ++ role.render ++ s!" domain `{tag}`"
  | .cyclicTransform chain => "cyclic transform chain: " ++ " -> ".intercalate chain
  | .removedTagReferenced source destination member property tag =>
    s!"`{member}.{property}` in transform `{source}` -> `{destination}` " ++
      s!"references removed tag `{tag}`"

/-- The error in words. -/
def message (error : CompileError) : String :=
  "[" ++ error.code.render ++ "] " ++ error.description

end CompileError

end DomainEvolution

import MockAudit.Signature.TypeExpr

/-!
# Method signatures

The expected types of the arguments and of the result of a method.
-/

namespace MockAudit

/-- A positional parameter of a signature. -/
structure OrderedParam where
  type : TypeExpr
  isOptional : Bool

/-- A keyword parameter of a signature. -/
structure KeywordParam where
  name : String
  type : TypeExpr
  isRequired : Bool

/-- Expected argument and result types of a method. -/
structure Signature where
  positional : List OrderedParam
  rest : Option TypeExpr
  named : List KeywordParam
  namedRest : Option TypeExpr
  returns : TypeExpr

/-- The text of a positional parameter. -/
def OrderedParam.text (p : OrderedParam) : String :=
  if p.isOptional then "?" ++ p.type.text else p.type.text

/-- The text of a keyword parameter. -/
def KeywordParam.text (p : KeywordParam) : String :=
  (if p.isRequired then "" else "?") ++ p.name ++ ": " ++ p.type.text

namespace Signature

/-- The signature of a method without parameters. -/
def returning (type : TypeExpr) : Signature :=
  { positional := [], rest := none, named := [], namedRest := none, returns := type }

/-- The signature with one more positional parameter. -/
def addPositional (s : Signature) (type : TypeExpr) (isOptional : Bool) : Signature :=
  { s with positional := s.positional ++ [⟨type, isOptional⟩] }

/-- The signature with one more keyword parameter. -/
def addNamed (s : Signature) (name : String) (type : TypeExpr) (isRequired : Bool) :
    Signature :=
  { s with named := s.named ++ [⟨name, type, isRequired⟩] }

/-- Whether keywords may be given. -/
def acceptsNamed (s : Signature) : Bool :=
  !s.named.isEmpty || s.namedRest.isSome

/-- The number of positional arguments that must be given. -/
def leastPositional (s : Signature) : Nat :=
  s.positional.countP (!·.isOptional)

/-- The parameters in parentheses. -/
def paramsText (s : Signature) : String :=
  let parts := s.positional.map (·.text)
    ++ (s.rest.map fun t => "*" ++ t.text).toList
    ++ s.named.map (·.text)
    ++ (s.namedRest.map fun t => "**" ++ t.text).toList
  "(" ++ String.intercalate ", " parts ++ ")"

/-- The text of a signature. -/
def text (s : Signature) : String :=
  s.paramsText ++ " -> " ++ s.returns.text

/-- The distinct named types that occur in a signature, in ascending order. -/
def references (s : Signature) : List TypeName :=
  let all := s.positional.flatMap (·.type.references)
    ++ s.named.flatMap (·.type.references)
    ++ s.rest.toList.flatMap (·.references)
    ++ s.namedRest.toList.flatMap (·.references)
    ++ s.returns.references
  all.eraseDups.mergeSort

end Signature

end MockAudit

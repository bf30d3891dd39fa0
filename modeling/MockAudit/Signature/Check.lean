import MockAudit.Call.Basic
import MockAudit.Signature.Basic

/-!
# Checking a call against a signature

All violations of a signature by one call are collected: the number of positional arguments or
else their types, the keywords in the order given, the keywords that are missing, and the type of
the result. Constructors and calls that raised have no result worth checking.
-/

namespace MockAudit

namespace Signature

/-- The positional and named arguments of a call as the signature sees them. A record whose last
argument is not marked as named gives it up as such if the signature takes keywords and has no
positional place left for it. -/
def separateArguments (s : Signature) (c : Call) :
    Except Fault (List Value × List (Value × Value)) :=
  if c.hasNamed then do return (← c.positional, c.named)
  else
    match c.arguments.getLast? with
    | some (.map entries) =>
      if s.acceptsNamed && s.rest.isNone && s.positional.length < c.arguments.length
          && (Value.map entries).isNamedArguments then
        .ok (c.arguments.dropLast, entries)
      else .ok (c.arguments, [])
    | _ => .ok (c.arguments, [])

/-- The name a key of a map stands for. -/
def keyName : Value → String
  | .symbol name | .str name => name
  | key => key.text

/-- The type expected of the positional argument at an index. -/
def positionalType? (s : Signature) (index : Nat) : Option TypeExpr :=
  ((s.positional[index]?).map (·.type)).or s.rest

/-- The type expected of the value of a keyword. -/
def keywordType? (s : Signature) (name : String) : Option TypeExpr :=
  ((s.named.find? (·.name == name)).map (·.type)).or s.namedRest

section

variable (s : Signature) (receiver : TypeName) (h : Hierarchy)

/-- Whether the number of positional arguments is allowed. -/
def fitsArity (count : Nat) : Bool :=
  s.leastPositional ≤ count && (s.rest.isSome || count ≤ s.positional.length)

/-- Violations by the positional arguments, the first of which has the given index. -/
def positionalViolations : Nat → List Value → List Violation
  | _, [] => []
  | index, v :: vs =>
    (match s.positionalType? index with
      | some expected =>
        if expected.accepts v receiver h then []
        else [.argumentType (.positional index) expected v]
      | none => []) ++ positionalViolations (index + 1) vs

/-- The violation by one named argument, if there is one. -/
def keywordViolation (entry : Value × Value) : Option Violation :=
  let name := keyName entry.1
  match s.keywordType? name with
  | none => some (.unknownKeyword name)
  | some expected =>
    if expected.accepts entry.2 receiver h then none
    else some (.argumentType (.keyword name) expected entry.2)

/-- The required keywords that were not given. -/
def missingKeywords (entries : List (Value × Value)) : List String :=
  let given := (entries.map (keyName ·.1)).filter fun name => (s.keywordType? name).isSome
  (s.named.filter fun p => p.isRequired && !given.contains p.name).map (·.name)

/-- The violation by the result, if there is one. -/
def returnViolation (c : Call) : Option Violation :=
  if c.isConstructor || c.raised.isSome || s.returns.accepts c.resultOrNil receiver h then none
  else some (.returnType s.returns c.resultOrNil)

end

/-- All violations of the signature by a call. -/
def violations (s : Signature) (c : Call) (h : Hierarchy) : Except Fault (List Violation) := do
  let (positional, entries) ← s.separateArguments c
  let receiver := c.target.type
  let byPosition :=
    if s.fitsArity positional.length then s.positionalViolations receiver h 0 positional
    else [.arity s.paramsText positional.length]
  return byPosition ++ entries.filterMap (s.keywordViolation receiver h)
    ++ (s.missingKeywords entries).map .missingKeyword
    ++ (s.returnViolation receiver h c).toList

/-- Checks a call; the answer is what is wrong with it, if anything. -/
def check (s : Signature) (c : Call) (h : Hierarchy) : Except Fault (Option Mismatch) := do
  match ← s.violations c h with
  | [] => return none
  | vs => return some ⟨c.describe, vs⟩

end Signature

end MockAudit

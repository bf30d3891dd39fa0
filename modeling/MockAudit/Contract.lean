import MockAudit.Call.Basic
import MockAudit.Hierarchy

/-!
# Contracts of stubs

A contract keeps what can be compared of one stub: the arguments that are compared by content, and
the type of the canned result. Verification asks whether the method ever behaved like that.
-/

namespace MockAudit

/-- What a contract expects of one argument. -/
inductive ArgumentPattern
  | exactly (v : Value)
  | wildcard

namespace ArgumentPattern

/-- Whether an argument is as expected. -/
def admits (p : ArgumentPattern) (v : Value) : Bool :=
  match p with
  | exactly expected => expected == v
  | wildcard => true

/-- Whether any argument is as expected. -/
def isWildcard : ArgumentPattern → Bool
  | exactly _ => false
  | wildcard => true

/-- The text of what is expected of an argument. -/
def text : ArgumentPattern → String
  | exactly v => v.text
  | wildcard => "_"

end ArgumentPattern

mutual

/-- Whether a value is compared by content: it is nil, a boolean or a number, or a collection of
such values. The keys of a map do not matter. -/
def Value.isComparable : Value → Bool
  | .nil | .bool _ | .int _ | .float _ => true
  | .array items => Value.allComparable items
  | .map entries => Value.allValuesComparable entries
  | .str _ | .symbol _ | .type _ | .object _ _ | .double _ => false

/-- Whether all values of a list are compared by content. -/
def Value.allComparable : List Value → Bool
  | [] => true
  | v :: vs => v.isComparable && Value.allComparable vs

/-- Whether the values of all entries are compared by content. -/
def Value.allValuesComparable : List (Value × Value) → Bool
  | [] => true
  | (_, v) :: rest => v.isComparable && Value.allValuesComparable rest

end

/-- A promise about one method. -/
structure Contract where
  target : Target
  method : String
  pattern : List ArgumentPattern
  returnType : TypeName

namespace Contract

/-- The type a stub promises to return. A verifying double promises the type it stands in for, and
a constructor promises nothing. -/
def stubbedResultType (stub : Call) : TypeName :=
  if stub.isConstructor then "Nil"
  else
    match stub.resultOrNil with
    | .double d => d.kind.verifiedType?.getD "Double"
    | v => v.typeName

/-- The contract of a stub. -/
def ofStub (stub : Call) : Contract :=
  { target := stub.target
    method := stub.method
    pattern := stub.arguments.map fun v => if v.isComparable then .exactly v else .wildcard
    returnType := stubbedResultType stub }

/-- Whether a contract says nothing: it admits all arguments and promises nil. -/
def isVacuous (c : Contract) : Bool :=
  c.pattern.all (·.isWildcard) && c.returnType == "Nil"

/-- The reference to the method of a contract. -/
def describe (c : Contract) : String :=
  c.target.describe c.method

/-- The text of a contract. -/
def text (c : Contract) : String :=
  c.describe ++ ": (" ++ String.intercalate ", " (c.pattern.map (·.text)) ++ ") -> "
    ++ c.returnType

/-- Pairs the slots of a pattern with arguments; a missing argument counts as nil. -/
def slots : List ArgumentPattern → List Value → List (ArgumentPattern × Value)
  | [], _ => []
  | p :: ps, [] => (p, .nil) :: slots ps []
  | p :: ps, v :: vs => (p, v) :: slots ps vs

/-- Whether the arguments of a call fit the pattern. -/
def admits (c : Contract) (call : Call) : Bool :=
  (slots c.pattern call.arguments).all fun (p, v) => p.admits v

/-- Whether a call returned what the contract promises. -/
def keeps (c : Contract) (h : Hierarchy) (call : Call) : Bool :=
  h.isSubtype call.resultOrNil.typeName c.returnType

/-- The line of evidence for a call, restricted to the arguments the pattern constrains. -/
def evidenceLine (c : Contract) (call : Call) : String :=
  let args := (slots c.pattern call.arguments).map fun (p, v) =>
    if p.isWildcard then "_" else v.text
  "    (" ++ String.intercalate ", " args ++ ") -> " ++ call.resultOrNil.typeName

/-- The distinct lines of evidence in order of first occurrence. -/
def evidence (c : Contract) (calls : List Call) : List String :=
  (calls.map c.evidenceLine).eraseDups

/-- Checks a contract against the real calls of its method; the answer is the failure, if any. -/
def verify (c : Contract) (real : List Call) (h : Hierarchy) : Option ContractFailure :=
  if real.isEmpty then some (.noCalls c.describe)
  else
    let fitting := real.filter c.admits
    if fitting.isEmpty then some (.noMatchingCalls c.text (c.evidence real))
    else if fitting.any (c.keeps h) then none
    else some (.noMatchingReturnType c.text (c.evidence fitting))

end Contract

end MockAudit

import MockAudit.Signature.TypeExpr
import MockAudit.Value.Text

/-!
# Failures of verification

What may be wrong with a single call: its contract has no backing in real calls, no signature is
known for its method, or it violates the signature.
-/

namespace MockAudit

/-- Why no real call backs a stub. -/
inductive ContractFailure
  | noCalls (method : String)
  | noMatchingCalls (pattern : String) (captured : List String)
  | noMatchingReturnType (pattern : String) (captured : List String)
deriving DecidableEq

namespace ContractFailure

/-- A headline with what was captured instead of the pattern. -/
private def withEvidence (headline pattern : String) (captured : List String) : String :=
  headline ++ pattern ++ ".\n  Captured call patterns:\n" ++ String.intercalate "\n" captured

/-- The wording of the failure. -/
def message : ContractFailure → String
  | noCalls method =>
    "Mock contract verification failed:\n  No method calls captured for " ++ method
  | noMatchingCalls pattern captured =>
    withEvidence "Mock contract verification failed:\n  No matching calls captured for "
      pattern captured
  | noMatchingReturnType pattern captured =>
    withEvidence
      ("Mock contract verification failed:\n  No calls with the expected return type"
        ++ " captured for ")
      pattern captured

end ContractFailure

/-- The argument a violation refers to. -/
inductive ArgumentPosition
  | positional (index : Nat)
  | keyword (name : String)
deriving DecidableEq

/-- The text of a position. -/
def ArgumentPosition.text : ArgumentPosition → String
  | positional index => "argument " ++ toString index
  | keyword name => "keyword `" ++ name ++ "`"

/-- One violation of a signature by a call. -/
inductive Violation
  | argumentType (position : ArgumentPosition) (expected : TypeExpr) (actual : Value)
  | returnType (expected : TypeExpr) (actual : Value)
  | arity (expected : String) (given : Nat)
  | unknownKeyword (name : String)
  | missingKeyword (name : String)

/-- The wording of a violation. -/
def Violation.message : Violation → String
  | argumentType position expected actual =>
    "ArgumentTypeError: expected `" ++ expected.text ++ "`, got `" ++ actual.typeName ++ "` ("
      ++ position.text ++ ": " ++ actual.text ++ ")"
  | returnType expected actual =>
    "ReturnTypeError: expected `" ++ expected.text ++ "`, got `" ++ actual.typeName ++ "` ("
      ++ actual.text ++ ")"
  | arity expected given =>
    "ArgumentError: expected method type " ++ expected ++ ", given " ++ toString given
      ++ " positional argument(s)"
  | unknownKeyword name => "ArgumentError: unknown keyword `" ++ name ++ "`"
  | missingKeyword name => "ArgumentError: missing keyword `" ++ name ++ "`"

/-- A call that violates its signature. -/
structure Mismatch where
  method : String
  violations : List Violation

/-- One line for each violation. -/
def Mismatch.message (m : Mismatch) : String :=
  String.intercalate "\n" (m.violations.map fun v => "[" ++ m.method ++ "] " ++ v.message)

/-- Why a call fails its type check. -/
inductive TypeFailure
  | missing (method : String) (hint : Option String)
  | mismatch (m : Mismatch)

/-- The wording of a failed type check. -/
def TypeFailure.message : TypeFailure → String
  | missing method hint =>
    "No signature found for " ++ method ++ (match hint with
      | some hint => ". " ++ hint
      | none => "")
  | mismatch m => m.message

/-- A failure attached to a call. -/
inductive Failure
  | contract (f : ContractFailure)
  | typeCheck (f : TypeFailure)

/-- The wording of a failure. -/
def Failure.message : Failure → String
  | contract f => f.message
  | typeCheck f => f.message

end MockAudit

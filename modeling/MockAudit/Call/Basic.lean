import MockAudit.Call.Failure
import MockAudit.Shape
import MockAudit.Target

/-!
# Call records

One invocation, real or mocked: what was called with which arguments, what came back, where it
happened, and what verification found. A record receives a result at most once.
-/

namespace MockAudit

/-- The record of an invocation. -/
structure Call where
  target : Target
  method : String
  arguments : List Value
  /-- Whether the last argument holds the named arguments, if that was fixed for the record. -/
  namedFlag : Option Bool := none
  shape : Option Shape := none
  /-- The result, if the call returned. -/
  result : Option Value := none
  /-- The object or double on which the call was mocked. -/
  receiver : Option Value := none
  /-- The test case in which the call was made. -/
  testCase : Option String := none
  /-- Where the implementation stands. -/
  location : Option String := none
  /-- The error the method raised instead of returning. -/
  raised : Option String := none
  failure : Option Failure := none

/-- The named flag of a call is set although it has no argument that could hold the names. -/
inductive Fault
  | namedFlagWithoutArguments
deriving DecidableEq

/-- If two steps succeed one after the other, so does the first on its own. -/
theorem exists_of_bind_eq_ok {α β ε : Type} {x : Except ε α} {f : α → Except ε β} {b : β}
    (h : (x >>= f) = .ok b) : ∃ a, x = .ok a ∧ f a = .ok b := by
  cases x with
  | error e => cases h
  | ok a => exact ⟨a, rfl, h⟩

namespace Call

/-- The result, or nil as long as there is none. -/
def resultOrNil (c : Call) : Value :=
  c.result.getD .nil

/-- Whether the call has returned. -/
def isCompleted (c : Call) : Bool :=
  c.result.isSome

/-- The method that was called. -/
def key (c : Call) : MethodRef :=
  (c.target, c.method)

/-- The reference to the method that was called. -/
def describe (c : Call) : String :=
  c.target.describe c.method

/-- Whether the constructor was called. -/
def isConstructor (c : Call) : Bool :=
  c.method == constructorName

/-- Records the result, unless the record has one already. -/
def complete? (c : Call) (result : Value) : Option Call :=
  match c.result with
  | none => some { c with result := some result }
  | some _ => none

/-- Whether the last argument holds the named arguments. Unless fixed, this follows from the shape
of the method and the form of the last argument. -/
def hasNamed (c : Call) : Bool :=
  c.namedFlag.getD
    (c.shape.any Shape.acceptsNamed && c.arguments.getLast?.any Value.isNamedArguments)

/-- The arguments without those given by name. -/
def positional (c : Call) : Except Fault (List Value) :=
  if c.hasNamed then
    if c.arguments.isEmpty then .error .namedFlagWithoutArguments
    else .ok c.arguments.dropLast
  else .ok c.arguments

/-- The arguments given by name. -/
def named (c : Call) : List (Value × Value) :=
  if c.hasNamed then (c.arguments.getLast?.bind Value.entries?).getD [] else []

/-- The text of a call. -/
def text (c : Call) : String :=
  c.describe ++ "(" ++ Value.argumentsText c.arguments ++ ") -> " ++ c.resultOrNil.text

/-- Without a fixed flag the positional arguments are always defined. -/
theorem positional_of_namedFlag_none {c : Call} (h : c.namedFlag = none) :
    ∃ vs, c.positional = .ok vs := by
  unfold positional
  by_cases hn : c.hasNamed
  · have : c.arguments ≠ [] := by
      intro he
      simp [hasNamed, h, he] at hn
    simp [hn, this]
  · simp [hn]

end Call

end MockAudit

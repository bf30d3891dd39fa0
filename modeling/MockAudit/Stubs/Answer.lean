import MockAudit.Program.Procedure
import MockAudit.Stubs.Registry

/-!
# Answers of stubs

Of the stubs configured for a method the one registered last among those that fit the arguments
answers. Each answer is reported as a mocked call.
-/

namespace MockAudit

namespace Call

/-- Whether a stub answers these arguments; one without arguments answers all. -/
def fits (stub : Call) (args : List Value) : Bool :=
  stub.arguments.isEmpty || stub.arguments == args

/-- Whether a stub on a double answers this message. A stub of the constructor answers the
allocator too. -/
def respondsTo (stub : Call) (method : String) : Bool :=
  stub.method == method || (method == allocatorName && stub.isConstructor)

/-- The mocked call that a stub reports. The record of a constructor has no result. -/
def mocked (stub : Call) (receiver : Value) (args : List Value) (shape : Option Shape)
    (testCase : Option String) : Call :=
  { target := stub.target
    method := stub.method
    arguments := args
    shape
    result := if stub.isConstructor then none else some stub.resultOrNil
    receiver := some receiver
    testCase
    location := some stubLocation }

/-- The error that hands the failure of a mocked call to the calling test. -/
def raiseFailure : Failure → RaisedError
  | .typeCheck f => ⟨"TypeCheckError", f.message⟩
  | .contract f => ⟨"ContractError", f.message⟩

end Call

/-- The stub that answers, if any fits. -/
def fittingStub? (stubs : List Call) (args : List Value) : Option Call :=
  stubs.reverse.find? (·.fits args)

/-- The stubs configured on a double for a message. -/
def stubsOnDouble (stubs : List Call) (d : TestDouble) (method : String) : List Call :=
  stubs.filter fun stub =>
    stub.respondsTo method && stub.receiver.any (· == Value.double d)

namespace RaisedError

/-- No stub fits the arguments. -/
def unexpectedArguments (target : Target) (method : String) (args : List Value) : RaisedError :=
  ⟨"MockExpectationError",
    target.describe method ++ " received unexpected arguments ("
      ++ Value.argumentsText args ++ ")"⟩

/-- Nothing is configured for a message to a double. -/
def unexpectedMessage (d : TestDouble) (method : String) : RaisedError :=
  ⟨"MockExpectationError", d.text ++ " received unexpected message :" ++ method⟩

/-- No type on the way up defines the method. -/
def undefinedMethod (target : Target) (method : String) : RaisedError :=
  ⟨"NoMethodError", "undefined method `" ++ target.describe method ++ "`"⟩

end RaisedError

end MockAudit

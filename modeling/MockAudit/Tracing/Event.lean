import MockAudit.Call.Basic
import MockAudit.Program.Procedure

/-!
# Events

Each dispatch of a method is announced to the observers before the method runs and again when it
has ended.
-/

namespace MockAudit

/-- What observers are told about a dispatch. -/
inductive Event
  /-- The implementation of `owner` is about to run for a receiver with bound arguments. -/
  | called (owner : Target) (method : String) (receiver : Value) (binding : List Binding)
      (location : String)
  | returned (owner : Target) (method : String) (v : Value)
  | unwound (owner : Target) (method : String) (e : RaisedError)

/-- The event that ends a dispatch. -/
def Event.ofOutcome (owner : Target) (method : String) : Outcome → Event
  | .returned v => .returned owner method v
  | .raised e => .unwound owner method e

end MockAudit

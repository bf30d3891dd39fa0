import MockAudit.Heap

/-!
# Procedures

What the body of a method does when it runs: it works on the heap, sends messages and waits for
their outcome, calls back into the program that hosts the audit, and ends in a value or an error.
-/

namespace MockAudit

/-- An error raised by a method. -/
structure RaisedError where
  type : TypeName
  message : String
deriving DecidableEq

/-- The text of an error. -/
def RaisedError.text (e : RaisedError) : String :=
  e.type ++ ": " ++ e.message

/-- How a method ends. -/
inductive Outcome
  | returned (v : Value)
  | raised (e : RaisedError)

/-- The behaviour of the body of a method. -/
inductive Procedure
  | finish (o : Outcome)
  /-- Works on the heap and goes on with the value found or created there. -/
  | onHeap (work : Heap → Value × Heap) (next : Value → Procedure)
  /-- Sends a message to a value. -/
  | send (receiver : Value) (method : String) (args : List Value) (next : Outcome → Procedure)
  /-- Asks a type for a new instance, through its allocator if it has one. -/
  | construct (type : TypeName) (args : List Value) (next : Outcome → Procedure)
  /-- Creates an instance and runs its constructor. -/
  | allocate (type : TypeName) (args : List Value) (next : Outcome → Procedure)
  /-- Lets the host act under a number it knows. -/
  | callback (number : Nat) (next : Procedure)

namespace Procedure

/-- Ends with a value. -/
def give (v : Value) : Procedure := finish (.returned v)

/-- Ends with an error. -/
def raise (type : TypeName) (message : String) : Procedure := finish (.raised ⟨type, message⟩)

/-- Goes on with the outcome of a procedure. -/
def andThen (p : Procedure) (next : Outcome → Procedure) : Procedure :=
  match p with
  | finish o => next o
  | onHeap work k => onHeap work fun v => (k v).andThen next
  | send receiver method args k => send receiver method args fun o => (k o).andThen next
  | construct type args k => construct type args fun o => (k o).andThen next
  | allocate type args k => allocate type args fun o => (k o).andThen next
  | callback number k => callback number (k.andThen next)

/-- Goes on with the value of an outcome, while an error ends the procedure. -/
def onValue (next : Value → Procedure) : Outcome → Procedure
  | .returned v => next v
  | .raised e => finish (.raised e)

/-- Goes on with the value of a procedure; an error ends both. -/
def bind (p : Procedure) (next : Value → Procedure) : Procedure :=
  p.andThen (onValue next)

/-- Goes on with a second procedure if the first raises. -/
def rescue (p fallback : Procedure) : Procedure :=
  p.andThen fun
    | .returned v => give v
    | .raised _ => fallback

/-- Reads a field, which is nil if it was never set. -/
def readField (v : Value) (name : String) (next : Value → Procedure) : Procedure :=
  onHeap (fun heap => ((heap.field? v name).getD .nil, heap)) next

/-- Sets a field. -/
def writeField (v : Value) (name : String) (content : Value) (next : Procedure) : Procedure :=
  onHeap (fun heap => (.nil, heap.setField v name content)) fun _ => next

end Procedure

end MockAudit

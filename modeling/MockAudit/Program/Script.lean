import MockAudit.Program.Procedure

/-!
# Scripts

A small language in which the bodies of methods can be written. A script runs with a receiver and
arguments, and an error that is raised ends it unless it is rescued.
-/

namespace MockAudit

/-- The body of a method as a script. -/
inductive Script
  /-- A value, which may be created anew each time. -/
  | const (create : Heap → Value × Heap)
  | self
  /-- All arguments in an array. -/
  | arguments
  /-- An argument, which is nil if it is not given. -/
  | argument (index : Nat)
  | raise (type : TypeName) (message : String)
  /-- A field of the receiver. -/
  | getField (name : String)
  | setField (name : String) (content : Script)
  | send (receiver : Script) (method : String) (args : List Script)
  /-- Sends a message with all arguments. -/
  | forward (receiver : Script) (method : String)
  | sendType (type : TypeName) (method : String) (args : List Script)
  | construct (type : TypeName) (args : List Script)
  | allocate (type : TypeName) (args : List Script)
  /-- Runs several scripts; the value is that of the last one. -/
  | sequence (steps : List Script)
  /-- One less than an integer; any other value is left as it is. -/
  | decrement (script : Script)
  /-- Chooses by whether a value is a positive integer. -/
  | ifPositive (test yes no : Script)
  /-- Runs a second script if the first raises. -/
  | rescue (script fallback : Script)

instance : Inhabited Script := ⟨.self⟩

namespace Script

/-- One less than an integer; any other value is left as it is. -/
def predecessor : Value → Value
  | .int i => .int (i - 1)
  | v => v

/-- Whether a value is a positive integer. -/
def isPositive : Value → Bool
  | .int i => 0 < i
  | _ => false

mutual

/-- The behaviour of a script. -/
def toProcedure (receiver : Value) (args : List Value) : Script → Procedure
  | .const create => .onHeap create .give
  | .self => .give receiver
  | .arguments => .give (.array args)
  | .argument index => .give (args[index]?.getD .nil)
  | .raise type message => .raise type message
  | .getField name => .readField receiver name .give
  | .setField name content =>
    (toProcedure receiver args content).bind fun v =>
      .writeField receiver name v (.give .nil)
  | .send target method parts =>
    (toProcedure receiver args target).bind fun target =>
      evaluateAll receiver args parts fun values => .send target method values .finish
  | .forward target method =>
    (toProcedure receiver args target).bind fun target => .send target method args .finish
  | .sendType type method parts =>
    evaluateAll receiver args parts fun values => .send (.type type) method values .finish
  | .construct type parts =>
    evaluateAll receiver args parts fun values => .construct type values .finish
  | .allocate type parts =>
    evaluateAll receiver args parts fun values => .allocate type values .finish
  | .sequence steps => runAll receiver args .nil steps
  | .decrement script => (toProcedure receiver args script).bind fun v => .give (predecessor v)
  | .ifPositive test yes no =>
    (toProcedure receiver args test).bind fun v =>
      if isPositive v then toProcedure receiver args yes else toProcedure receiver args no
  | .rescue script fallback =>
    (toProcedure receiver args script).rescue (toProcedure receiver args fallback)

/-- Runs scripts and goes on with their values. -/
def evaluateAll (receiver : Value) (args : List Value) :
    List Script → (List Value → Procedure) → Procedure
  | [], next => next []
  | script :: scripts, next =>
    (toProcedure receiver args script).bind fun v =>
      evaluateAll receiver args scripts fun values => next (v :: values)

/-- Runs scripts one after the other; the value is that of the last one. -/
def runAll (receiver : Value) (args : List Value) (last : Value) : List Script → Procedure
  | [] => .give last
  | script :: scripts =>
    (toProcedure receiver args script).bind fun v => runAll receiver args v scripts

end

end Script

end MockAudit

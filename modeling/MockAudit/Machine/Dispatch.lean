import MockAudit.Machine.Basic

/-!
# Dispatch of messages

A message to a value is handled by the implementation found on the way up from the type of the
receiver; a message to a double never reaches the implementations. Every dispatch is announced to
the observers subscribed when it begins, and the same observers learn of its end. Nested messages
are bounded in depth, and a message that exceeds the bound has no answer.
-/

namespace MockAudit

/-- What the host does when an audited program calls back. -/
abbrev Host := Nat → Machine → Machine

/-- A host that does nothing. -/
def Host.idle : Host := fun _ m => m

/-- A message of an audited program. -/
inductive Message
  | send (receiver : Value) (method : String) (args : List Value)
  | construct (type : TypeName) (args : List Value)
  | allocate (type : TypeName) (args : List Value)

/-- The state after a message and its answer, if there is one. -/
abbrev Reply := Machine × Option Outcome

section

variable (host : Host) (answer : Machine → Message → Reply)

/-- Runs a procedure; `answer` handles its messages. -/
def Procedure.run (m : Machine) : Procedure → Reply
  | .finish o => (m, some o)
  | .onHeap work next =>
    let (v, heap) := work m.heap
    Procedure.run { m with heap } (next v)
  | .send receiver method args next =>
    match answer m (.send receiver method args) with
    | (m, some o) => Procedure.run m (next o)
    | (m, none) => (m, none)
  | .construct type args next =>
    match answer m (.construct type args) with
    | (m, some o) => Procedure.run m (next o)
    | (m, none) => (m, none)
  | .allocate type args next =>
    match answer m (.allocate type args) with
    | (m, some o) => Procedure.run m (next o)
    | (m, none) => (m, none)
  | .callback number next => Procedure.run (host number m) next

/-- Lets a stub answer: the mocked call goes to the sink, and unless it is refused the canned
value to the caller. -/
def Machine.answerFrom (m : Machine) (stub : Call) (receiver : Value) (args : List Value)
    (sink : Sink) : Reply :=
  let shape := (m.catalog.lookup stub.target stub.method).map (·.2.shape)
  match m.deliver sink (stub.mocked receiver args shape m.testCase) with
  | (m, .ok none) => (m, some (.returned stub.resultOrNil))
  | (m, .ok (some f)) => (m, some (.raised (Call.raiseFailure f)))
  | (m, .error _) => (m, none)

/-- Runs an implementation. -/
def Implementation.run (m : Machine) (receiver : Value) (args : List Value) :
    Implementation → Reply
  | .code body => (body receiver args).run host answer m
  | .stubbed key stubs sink =>
    match fittingStub? stubs args with
    | some stub => m.answerFrom stub receiver args sink
    | none => (m, some (.raised (.unexpectedArguments key.1 key.2 args)))
  | .recorder tracer key shape location inner =>
    let index := (m.tracers[tracer]?.map (·.capture.records.length)).getD 0
    let call : Call :=
      { target := key.1, method := key.2, arguments := args, shape
        location := some location, testCase := m.testCase }
    let m := m.modifyTracer tracer fun t => { t with capture := t.capture.record call }
    match Implementation.run m receiver args inner with
    | (m, none) => (m, none)
    | (m, some o) =>
      let lines := (m.tracers[tracer]?.map (·.capture.finishLog index o)).getD []
      ((m.modifyTracer tracer fun t => { t with capture := t.capture.finish index o }).write
        lines, some o)

/-- Sends a message to a double. -/
def Machine.answerDouble (m : Machine) (d : TestDouble) (method : String)
    (args : List Value) : Reply :=
  match m.doubleHandler with
  | none => (m, some (.raised (.unexpectedMessage d method)))
  | some handler =>
    match stubsOnDouble handler.stubs d method with
    | [] => (m, some (.raised (.unexpectedMessage d method)))
    | first :: others =>
      match fittingStub? (first :: others) args with
      | some stub => m.answerFrom stub (.double d) args handler.sink
      | none => (m, some (.raised (.unexpectedArguments first.target method args)))

/-- Lets the implementation of a method run, with announcements to the observers. -/
def Machine.dispatch (m : Machine) (target : Target) (receiver : Value) (method : String)
    (args : List Value) : Reply :=
  match m.resolve target method with
  | none => (m, some (.raised (.undefinedMethod target method)))
  | some (owner, entry) =>
    match m.subscribers with
    | [] => entry.implementation.run host answer m receiver args
    | audience =>
      let binding := ((m.catalog.lookup owner method).map (·.2.shape.bind args)).getD []
      let m := m.notify audience (.called owner method receiver binding entry.location)
      match entry.implementation.run host answer m receiver args with
      | (m, none) => (m, none)
      | (m, some o) => (m.notify audience (.ofOutcome owner method o), some o)

/-- Creates an instance of a type and runs its constructor, if it has one. -/
def Machine.allocate (m : Machine) (type : TypeName) (args : List Value) : Reply :=
  let (object, heap) := m.heap.newObject type []
  let m := { m with heap }
  match m.resolve (.instances type) constructorName with
  | none => (m, some (.returned object))
  | some _ =>
    match m.dispatch host answer (.instances type) object constructorName args with
    | (m, some (.returned _)) => (m, some (.returned object))
    | reply => reply

/-- Handles a message; `answer` handles the messages it leads to. -/
def Machine.handle (m : Machine) : Message → Reply
  | .send receiver method args =>
    match receiver with
    | .double d => m.answerDouble d method args
    | receiver => m.dispatch host answer (.ofReceiver receiver) receiver method args
  | .construct type args =>
    match m.resolve (.typeItself type) allocatorName with
    | some _ => m.dispatch host answer (.typeItself type) (.type type) allocatorName args
    | none => m.allocate host answer type args
  | .allocate type args => m.allocate host answer type args

end

/-- Answers a message that leads to messages nested at most so deep. -/
def Machine.answer (host : Host) : Nat → Machine → Message → Reply
  | 0, m, _ => (m, none)
  | depth + 1, m, message => m.handle host (Machine.answer host depth) message

/-- The depth to which messages are answered. -/
def maxNesting : Nat := 100000

end MockAudit

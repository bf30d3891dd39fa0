import MockAudit.Error
import MockAudit.Log
import MockAudit.Tracing.Event
import MockAudit.Tracing.WatchList

/-!
# Captured calls

A capture is the list of the calls recorded so far. Calls are recorded when they begin and receive
their end later, by their position in the list. A capture that follows events keeps one frame for
each dispatch that has not ended, so that an end always belongs to the call that began last.
-/

namespace MockAudit

/-- Recorded calls, and the frames of the dispatches that have not ended: the position of the
record of each, if it has one. -/
structure Capture where
  records : List Call := []
  frames : List (Option Nat) := []

namespace Capture

/-- Adds a record at the end. -/
def record (c : Capture) (call : Call) : Capture :=
  { c with records := c.records ++ [call] }

/-- Gives a record its result. A constructor never has one, and a result is never replaced. -/
def settle (c : Call) (v : Value) : Call :=
  if c.isConstructor then c else (c.complete? v).getD c

/-- The line logged when a record that has a result is given another. -/
def settleLog (c : Call) : List LogLine :=
  if !c.isConstructor && c.isCompleted then
    [.debug (Error.alreadyCompleted c.describe).message]
  else []

/-- Marks a record as ended by an error. -/
def mark (c : Call) (e : RaisedError) : Call :=
  { c with raised := some e.text }

/-- Ends the record at a position. -/
def finish (c : Capture) (index : Nat) (o : Outcome) : Capture :=
  { c with records := c.records.modify index fun call =>
      match o with
      | .returned v => settle call v
      | .raised e => mark call e }

/-- The lines logged when the record at a position ends. -/
def finishLog (c : Capture) (index : Nat) : Outcome → List LogLine
  | .returned _ => (c.records[index]?.map settleLog).getD []
  | .raised _ => []

/-- The watched target a dispatch belongs to: that of the receiver, or else that of the running
implementation. -/
def watchedAs? (watched : WatchList) (owner : Target) (receiver : Value)
    (method : String) : Option Target :=
  [Target.ofReceiver receiver, owner].find? fun target =>
    watched.any fun (t, methods) => t == target && methods.contains method

/-- The positional arguments and the named ones that a binding holds. -/
def unbind : List Binding → List Value × List (Value × Value)
  | [] => ([], [])
  | ⟨kind, name, v⟩ :: rest =>
    let (positional, named) := unbind rest
    match kind with
    | .required | .optional => (v :: positional, named)
    | .rest =>
      match v with
      | .array items => (items ++ positional, named)
      | v => (v :: positional, named)
    | .keyRequired | .key => (positional, (.symbol name, v) :: named)
    | .keyRest => (positional, v.entries?.getD [] ++ named)
    | .noKey | .block => (positional, named)

/-- The record of a dispatch, rebuilt from the binding of its arguments. -/
def recordOf (target : Target) (method : String) (binding : List Binding)
    (location : String) (testCase : Option String) : Call :=
  let (positional, named) := unbind binding
  { target, method
    arguments := if named.isEmpty then positional else positional ++ [.map named]
    namedFlag := some !named.isEmpty
    location := some location
    testCase }

/-- Takes note of an event that happens during a test case. -/
def observe (watched : WatchList) (testCase : Option String) (c : Capture) (e : Event) :
    Capture :=
  match e with
  | .called owner method receiver binding location =>
    match watchedAs? watched owner receiver method with
    | none => { c with frames := none :: c.frames }
    | some target =>
      { records := c.records ++ [recordOf target method binding location testCase]
        frames := some c.records.length :: c.frames }
  | .returned _ _ v => endFrame c (.returned v)
  | .unwound _ _ e => endFrame c (.raised e)
where
  /-- Ends the dispatch that began last. -/
  endFrame (c : Capture) (o : Outcome) : Capture :=
    match c.frames with
    | [] => c
    | frame :: frames =>
      let c := { c with frames }
      frame.elim c (c.finish · o)

/-- The lines logged when an event is taken note of. -/
def observeLog (c : Capture) (e : Event) : List LogLine :=
  match e, c.frames with
  | .returned _ _ v, some index :: _ => c.finishLog index (.returned v)
  | _, _ => []

end Capture

end MockAudit

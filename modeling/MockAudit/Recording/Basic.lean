import MockAudit.Call.Basic
import MockAudit.Catalog
import MockAudit.Error
import MockAudit.Recording.Snapshot

/-!
# Recordings

A recording holds calls, and the types they refer to, in a form that outlives the program in which
they were captured. Values are recorded as snapshots.
-/

namespace MockAudit

/-- A recorded type. -/
structure TypeSnapshot where
  name : TypeName
  superclass : Option TypeName

/-- A recorded call, with its values in some form. -/
structure RecordedCall (V : Type) where
  /-- The reference to the method. -/
  method : String
  arguments : List V := []
  /-- Whether the last argument holds the named arguments. -/
  namedFlag : Option Bool := none
  /-- The result, which is missing if the call never returned. -/
  result : Option V := none
  receiver : Option V := none
  location : Option String := none
  testCase : Option String := none
  raised : Option String := none

/-- A recorded call that outlives its program. -/
abbrev CallSnapshot := RecordedCall Snapshot

/-- A recording. -/
structure Recording where
  types : List TypeSnapshot := []
  calls : List CallSnapshot := []

namespace RecordedCall

/-- Records a call. -/
def ofCall (c : Call) : RecordedCall Value :=
  { method := c.describe
    arguments := c.arguments
    namedFlag := if c.hasNamed then some true else none
    result := c.result
    receiver := c.receiver
    location := c.location
    testCase := c.testCase
    raised := c.raised }

/-- The call that was recorded, if its method can be read. -/
def toCall (r : RecordedCall Value) : Except Error Call :=
  match MethodRef.parse? r.method with
  | none => .error (.invalidRecordedMethod r.method)
  | some (target, method) =>
    .ok { target, method
          arguments := r.arguments
          namedFlag := some (r.namedFlag.getD false)
          result := r.result
          receiver := r.receiver
          testCase := r.testCase
          location := r.location
          raised := r.raised }

/-- A recorded call with its values in another form. -/
def map {V W : Type} (f : V → W) (r : RecordedCall V) : RecordedCall W :=
  { r with
    arguments := r.arguments.map f
    result := r.result.map f
    receiver := r.receiver.map f }

end RecordedCall

namespace CallSnapshot

/-- Records a call with the values as they are now. -/
def ofCall (heap : Heap) (c : Call) : CallSnapshot :=
  (RecordedCall.ofCall c).map (Snapshot.ofValue heap)

/-- Restores an optional value. -/
def restoreOption (s : Option Snapshot) (heap : Heap) : Option Value × Heap :=
  match s with
  | none => (none, heap)
  | some s =>
    let (v, heap) := s.restore heap
    (some v, heap)

/-- Creates the values of a recorded call. -/
def restoreValues (r : CallSnapshot) (heap : Heap) : RecordedCall Value × Heap :=
  let (arguments, heap) := Snapshot.restoreItems r.arguments heap
  let (result, heap) := restoreOption r.result heap
  let (receiver, heap) := restoreOption r.receiver heap
  ({ r with arguments, result, receiver }, heap)

/-- Restores a call with the objects and doubles it refers to. -/
def restore (r : CallSnapshot) (heap : Heap) : Except Error (Call × Heap) := do
  let (r, heap) := r.restoreValues heap
  return (← r.toCall, heap)

/-- Restores calls in order, up to the first that refers to no method. -/
def restoreAll : List CallSnapshot → Heap → Except Error (List Call × Heap)
  | [], heap => .ok ([], heap)
  | r :: rs, heap => do
    let (c, heap) ← r.restore heap
    let (cs, heap) ← restoreAll rs heap
    return (c :: cs, heap)

end CallSnapshot

namespace Recording

/-- Records calls with the values as they are now. -/
def ofCalls (heap : Heap) (calls : List Call) : Recording :=
  { calls := calls.map (CallSnapshot.ofCall heap) }

/-- Records the types of a catalog, in ascending order of names. -/
def addTypes (r : Recording) (c : Catalog) : Recording :=
  { r with types := c.names.map fun name => ⟨name, (c.find? name).bind (·.superclass)⟩ }

/-- The catalog of the recorded types. -/
def catalog (r : Recording) : Catalog :=
  r.types.foldl (fun c t => c.define t.name { superclass := t.superclass }) Catalog.empty

/-- Restores the recorded calls. -/
def restoreCalls (r : Recording) (heap : Heap) : Except Error (List Call × Heap) :=
  CallSnapshot.restoreAll r.calls heap

end Recording

end MockAudit

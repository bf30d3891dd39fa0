import MockAudit.Tracing.Filter

/-!
# The registry of stubs

Every stub configured in a run is kept once, under its target and method, in the order of
registration. A stub of an allocator is kept under the constructor the allocator runs.
-/

namespace MockAudit

/-- The stubs of one method. -/
structure StubGroup where
  method : String
  stubs : List Call

/-- The stubs of one target. -/
structure TargetGroup where
  target : Target
  methods : List StubGroup

/-- The configured stubs. -/
structure Registry where
  entries : List TargetGroup

/-- The stub of a constructor that stands for a stub of an allocator: it remembers the type as its
receiver. -/
def Call.normalizeStub (stub : Call) : Call :=
  if stub.target.onType ∧ stub.method = allocatorName then
    { stub with
      target := .instances stub.target.type
      method := constructorName
      namedFlag := none
      shape := none
      receiver := some (stub.receiver.getD (.type stub.target.type)) }
  else stub

/-- Whether a stub was configured on the allocator of its type. -/
def Call.isOnAllocator (stub : Call) : Bool :=
  match stub.receiver with
  | some (.type t) => !stub.target.onType && stub.isConstructor && t == stub.target.type
  | _ => false

namespace Registry

/-- The registry without stubs. -/
def empty : Registry := ⟨[]⟩

/-- Adds a stub to the groups of its target. -/
def addToMethods (stub : Call) : List StubGroup → List StubGroup
  | [] => [⟨stub.method, [stub]⟩]
  | group :: rest =>
    if group.method = stub.method then ⟨group.method, group.stubs ++ [stub]⟩ :: rest
    else group :: addToMethods stub rest

/-- Adds a stub to the groups of all targets. -/
def addToTargets (stub : Call) : List TargetGroup → List TargetGroup
  | [] => [⟨stub.target, [⟨stub.method, [stub]⟩]⟩]
  | entry :: rest =>
    if entry.target = stub.target then ⟨entry.target, addToMethods stub entry.methods⟩ :: rest
    else entry :: addToTargets stub rest

/-- Registers a stub. -/
def register (r : Registry) (stub : Call) : Registry :=
  ⟨addToTargets stub.normalizeStub r.entries⟩

/-- The stubbed methods by target. -/
def targets (r : Registry) : List (Target × List String) :=
  r.entries.map fun entry => (entry.target, entry.methods.map (·.method))

/-- The stubs of a method. -/
def stubsOf (r : Registry) (key : MethodRef) : List Call :=
  ((r.entries.find? (·.target == key.1)).bind fun entry =>
    (entry.methods.find? (·.method == key.2)).map (·.stubs)).getD []

/-- All stubs, grouped by target and method. -/
def stubs (r : Registry) : List Call :=
  r.entries.flatMap fun entry => entry.methods.flatMap (·.stubs)

/-- Changes every stub. -/
def mapStubs (r : Registry) (f : Call → Call) : Registry :=
  ⟨r.entries.map fun entry =>
    { entry with methods := entry.methods.map fun group =>
        { group with stubs := group.stubs.map f } }⟩

/-- The number of stubs. -/
def size (r : Registry) : Nat :=
  r.stubs.length

/-- Whether no target is stubbed. -/
def isEmpty (r : Registry) : Bool :=
  r.entries.isEmpty

/-- The target under which the stubs of a double are configured. -/
def targetOfDouble (d : TestDouble) : Target :=
  match d.kind with
  | .instanceOf t => .instances t
  | .staticOf t => .typeItself t
  | .plain => .instances (d.name.getD "Double")

/-- The stub that answers a method with a value during a test case. Without arguments it answers
every call, and without a location it is located with the stubs. -/
def stub (target : Target) (method : String) (arguments : List Value)
    (receiver : Option Value) (location : Option String) (testCase : Option String)
    (result : Value) : Call :=
  { target, method, arguments, result := some result, receiver, testCase
    location := some (location.getD stubLocation) }

end Registry

end MockAudit

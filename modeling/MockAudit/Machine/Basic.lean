import MockAudit.Checker.Basic
import MockAudit.Stubs.Answer
import MockAudit.Tracing.Capture

/-!
# The machine that runs audited programs

The machine holds the declared types, the installed implementations and the objects of an audited
program, together with everything an audit attaches to it: observers of its events, tracers, a
handler for the messages to doubles, and the places where mocked calls are kept.
-/

namespace MockAudit

/-- How a mocked call is judged when it happens. -/
inductive Judge
  /-- All calls are accepted. -/
  | lenient
  /-- Calls are refused for reasons of the host. -/
  | host (refusal : Call → Option Failure)
  /-- Calls are checked by the checker of the machine; `strict` refuses missing signatures. -/
  | checker (strict : Bool)

/-- Where stubs report mocked calls. -/
structure Sink where
  judge : Judge
  /-- The store in which accepted calls are kept. -/
  store : Option Nat

/-- An implementation of a method. -/
inductive Implementation
  /-- Code of the audited program. -/
  | code (body : Value → List Value → Procedure)
  /-- Code that records each call for a tracer and lets another implementation do the work. -/
  | recorder (tracer : Nat) (key : MethodRef) (shape : Option Shape) (location : String)
      (inner : Implementation)
  /-- Stubs that answer in place of the method. -/
  | stubbed (key : MethodRef) (stubs : List Call) (sink : Sink)

/-- An installed implementation and its location. -/
structure LocatedCode where
  implementation : Implementation
  location : String

/-- The stubs that answer messages to doubles. -/
structure DoubleResponder where
  stubs : List Call
  sink : Sink

/-- The installed implementations. -/
abbrev MethodTable := MethodRef → Option LocatedCode

namespace MethodTable

/-- The table with the entry of one method replaced, or removed. -/
def put (table : MethodTable) (key : MethodRef) (entry : Option LocatedCode) : MethodTable :=
  fun k => if k = key then entry else table k

@[simp] theorem put_same (table : MethodTable) (key : MethodRef) (entry : Option LocatedCode) :
    table.put key entry key = entry := by
  simp [put]

theorem put_other (table : MethodTable) {key key' : MethodRef} (entry : Option LocatedCode)
    (h : key' ≠ key) : table.put key entry key' = table key' := by
  simp [put, h]

/-- Putting back what was there before undoes a change. -/
theorem put_put_eq (table : MethodTable) (key : MethodRef) (entry : Option LocatedCode) :
    (table.put key entry).put key (table key) = table := by
  funext k
  by_cases h : k = key <;> simp [put, h]

end MethodTable

/-- A method with the entry that was installed for it before. -/
structure Displaced where
  key : MethodRef
  previous : Option LocatedCode

/-- What installed stubs have displaced. -/
structure InstalledStubs where
  displaced : List Displaced
  /-- The handler of messages to doubles there was before, if it was replaced. -/
  previousHandler : Option (Option DoubleResponder)

/-- How a tracer watches methods. -/
inductive Strategy
  /-- Each watched method is replaced by a recorder. -/
  | wrap
  /-- The events of all dispatches are followed. -/
  | events
deriving DecidableEq

namespace Strategy

/-- The name of a strategy. -/
def name : Strategy → String
  | wrap => "wrap"
  | events => "events"

/-- All strategies. -/
def all : List Strategy := [wrap, events]

/-- The strategy with a name. -/
def ofName (name : String) : Except ConfigurationFault Strategy :=
  match all.find? (·.name == name) with
  | some strategy => .ok strategy
  | none => .error (.unknownStrategy name)

end Strategy

/-- What a running tracer has to undo. -/
inductive Interception
  | wrapped (displaced : List Displaced)
  | subscribed (observer : Nat)

/-- The numbers of calls a stopped tracer has seen. -/
structure CaptureCounts where
  collected : Nat
  filtered : Nat
deriving DecidableEq

/-- The number of calls kept. -/
def CaptureCounts.kept (s : CaptureCounts) : Nat :=
  s.collected - s.filtered

/-- The life of a tracer. -/
inductive TracerStage
  | ready
  | running (installation : Interception)
  | stopped (calls : List Call) (stats : CaptureCounts)

/-- A tracer. -/
structure Tracer where
  strategy : Strategy
  filter : ArtifactFilter := ArtifactFilter.standard
  watched : WatchList := []
  capture : Capture := {}
  state : TracerStage := .ready

/-- An observer of events. -/
inductive Observer
  /-- Keeps all events. -/
  | transcript (events : List Event)
  /-- Lets a tracer take note of all events, with the watch list it was started with. -/
  | follower (tracer : Nat) (watched : WatchList)

/-- The test case that is running, and where it stands. -/
structure TestContext where
  testCase : Option String
  location : Option String

/-- The state of an audited program and of what is attached to it. -/
structure Machine where
  catalog : Catalog := Catalog.empty
  methods : MethodTable := fun _ => none
  heap : Heap := Heap.empty
  /-- The observers that are subscribed, in order of subscription, by number. -/
  subscribers : List Nat := []
  /-- All observers there ever were. -/
  observers : List Observer := []
  doubleHandler : Option DoubleResponder := none
  tracers : List Tracer := []
  /-- The sets of stubs that were attached, by number; a set that was detached is gone. -/
  stubSets : List (Option InstalledStubs) := []
  /-- The mocked calls kept by sinks. -/
  stores : List (List Call) := []
  checker : Option Checker := none
  /-- The test cases that are running, innermost first. -/
  contexts : List TestContext := []
  log : List LogLine := []

namespace Machine

/-- The test case in which calls are made now. -/
def testCase (m : Machine) : Option String :=
  m.contexts.head?.bind (·.testCase)

/-- Writes to the log. -/
def write (m : Machine) (lines : List LogLine) : Machine :=
  { m with log := m.log ++ lines }

/-- What a checker sees of the audited program. -/
def environment (m : Machine) : Environment :=
  m.catalog.environment

/-- Defines a type. -/
def addType (m : Machine) (name : TypeName) (superclass : Option TypeName) : Machine :=
  { m with catalog := m.catalog.define name { superclass } }

/-- Declares a method and installs its implementation. -/
def addMethod (m : Machine) (key : MethodRef) (shape : Shape) (location : String)
    (body : Value → List Value → Procedure) : Machine :=
  { m with
    catalog := m.catalog.addMethod key.1 key.2 { shape, location }
    methods := m.methods.put key (some ⟨.code body, location⟩) }

/-- Installs an entry for a method, or removes it. -/
def install (m : Machine) (key : MethodRef) (entry : Option LocatedCode) : Machine :=
  { m with methods := m.methods.put key entry }

/-- Undoes changes to the method table, the last one first. -/
def restoreAll (m : Machine) (displaced : List Displaced) : Machine :=
  displaced.reverse.foldl (fun m d => m.install d.key d.previous) m

/-- Looks for an implementation along the superclasses, visiting a bounded number of types. -/
def resolveFrom (m : Machine) (onType : Bool) (name : String) :
    Nat → TypeName → Option (Target × LocatedCode)
  | 0, _ => none
  | visits + 1, type =>
    match m.methods (⟨type, onType⟩, name) with
    | some entry => some (⟨type, onType⟩, entry)
    | none => do
      let d ← m.catalog.find? type
      m.resolveFrom onType name visits (← d.superclass)

/-- The implementation that handles a method of a target, with the target that owns it. -/
def resolve (m : Machine) (target : Target) (name : String) : Option (Target × LocatedCode) :=
  m.resolveFrom target.onType name Catalog.maxVisits target.type

/-- Subscribes an observer; the answer is its number. -/
def subscribe (m : Machine) (observer : Observer) : Machine × Nat :=
  ({ m with
      observers := m.observers ++ [observer]
      subscribers := m.subscribers ++ [m.observers.length] }, m.observers.length)

/-- Ends a subscription. -/
def unsubscribe (m : Machine) (observer : Nat) : Machine :=
  { m with subscribers := m.subscribers.filter (· != observer) }

/-- Tells one observer about an event. -/
def tell (m : Machine) (e : Event) (observer : Nat) : Machine :=
  match m.observers[observer]? with
  | none => m
  | some (.transcript events) =>
    { m with observers := m.observers.set observer (.transcript (events ++ [e])) }
  | some (.follower tracer watched) =>
    match m.tracers[tracer]? with
    | none => m
    | some t =>
      let capture := t.capture.observe watched m.testCase e
      { m with
        tracers := m.tracers.set tracer { t with capture }
        log := m.log ++ t.capture.observeLog e }

/-- Tells several observers about an event. -/
def notify (m : Machine) (audience : List Nat) (e : Event) : Machine :=
  audience.foldl (fun m observer => m.tell e observer) m

/-- Keeps a call in a store. -/
def keep (m : Machine) (store : Nat) (c : Call) : Machine :=
  { m with stores := m.stores.modify store (· ++ [c]) }

/-- Opens a new store for mocked calls. -/
def newStore (m : Machine) : Machine × Nat :=
  ({ m with stores := m.stores ++ [[]] }, m.stores.length)

/-- The calls in a store. -/
def stored (m : Machine) (store : Nat) : List Call :=
  m.stores[store]?.getD []

/-- Changes a tracer. -/
def modifyTracer (m : Machine) (tracer : Nat) (f : Tracer → Tracer) : Machine :=
  { m with tracers := m.tracers.modify tracer f }

/-- The reason why a mocked call is refused, if it is. -/
def judge (m : Machine) (j : Judge) (c : Call) : Except Fault (Option Failure) :=
  match j, m.checker with
  | .lenient, _ | .checker _, none => .ok none
  | .host refusal, _ => .ok (refusal c)
  | .checker strict, some checker =>
    (checker.check m.environment c strict).map (Option.map Failure.typeCheck)

/-- The lines logged when a mocked call is judged. -/
def judgeLog (m : Machine) (j : Judge) (c : Call) : List LogLine :=
  match j, m.checker with
  | .checker strict, some checker => checker.checkLog c strict
  | _, _ => []

/-- Reports a mocked call to a sink; the answer is the reason if the call is refused. -/
def deliver (m : Machine) (sink : Sink) (c : Call) : Machine × Except Fault (Option Failure) :=
  let verdict := m.judge sink.judge c
  let m := m.write (m.judgeLog sink.judge c)
  match verdict, sink.store with
  | .ok none, some store => (m.keep store c, verdict)
  | _, _ => (m, verdict)

end Machine

end MockAudit

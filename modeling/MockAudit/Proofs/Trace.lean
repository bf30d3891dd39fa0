import MockAudit.Machine.Dispatch
import Mathlib.Data.List.Basic

/-!
# Traces of runs

The trace of a run lists the moments at which something happens that an audit may record: a
dispatch begins, a recorder makes a record, or the host acts. Every moment comes with the state of
the machine just before it. The trace is read off the run of the machine itself, which goes on as it
does without a trace, so a trace is no second account of what programs do.

## Main definitions

* `Moment`: the moments of a run.
* `Machine.trace`: the trace of a message.
* `Procedure.trace`: the trace of a program.
* `Reply.andThen`: what goes on with the outcome of a reply.
* `Machine.enact`: a dispatch whose implementation has been found.

## Main results

* `Machine.notify_eq`: events change nothing but what observers and tracers know.
* `Machine.dispatch_of_resolve`: a dispatch announces itself, runs, and announces its end, whoever
  listens.
-/

namespace MockAudit

/-- Something an audit may record, with the state of the machine just before. -/
inductive Moment
  /-- A dispatch begins; the entry of its owner is about to run. -/
  | began (m : Machine) (owner : Target) (entry : LocatedCode) (receiver : Value)
      (method : String) (args : List Value)
  /-- A recorder makes a record for a tracer and lets the inner implementation do the work. -/
  | recorded (m : Machine) (tracer : Nat) (call : Call) (inner : Implementation)
  /-- The host acts under a number. -/
  | hosted (m : Machine) (number : Nat)

/-- The state of the machine just before a moment. -/
def Moment.machine : Moment → Machine
  | .began m .. | .recorded m .. | .hosted m _ => m

namespace Machine

/-- The declared shape of a method. -/
def shape? (m : Machine) (key : MethodRef) : Option Shape :=
  (m.catalog.lookup key.1 key.2).map (·.2.shape)

/-- The event that announces a dispatch. -/
def calledEvent (m : Machine) (owner : Target) (entry : LocatedCode) (receiver : Value)
    (method : String) (args : List Value) : Event :=
  .called owner method receiver
    (((m.catalog.lookup owner method).map (·.2.shape.bind args)).getD []) entry.location

theorem calledEvent_of_shape {m : Machine} {owner : Target} {method : String} {shape : Shape}
    (h : m.shape? (owner, method) = some shape) (entry : LocatedCode) (receiver : Value)
    (args : List Value) :
    m.calledEvent owner entry receiver method args =
      .called owner method receiver (shape.bind args) entry.location := by
  obtain ⟨found, hfound, rfl⟩ := Option.map_eq_some_iff.mp h
  rw [calledEvent, hfound, Option.map_some, Option.getD_some]

/-- The record that a recorder makes of a call. -/
def recordedCall (m : Machine) (key : MethodRef) (shape : Option Shape) (location : String)
    (args : List Value) : Call :=
  { target := key.1, method := key.2, arguments := args, shape
    location := some location, testCase := m.testCase }

/-- The machine on which a recorder has made its record. -/
def recording (m : Machine) (tracer : Nat) (c : Call) : Machine :=
  m.modifyTracer tracer fun t => { t with capture := t.capture.record c }

/-- The number of records a tracer has. -/
def recordCount (m : Machine) (tracer : Nat) : Nat :=
  (m.tracers[tracer]?.map (·.capture.records.length)).getD 0

/-- The machine on which a recorder has ended its record. -/
def recordEnded (m : Machine) (tracer index : Nat) (o : Outcome) : Machine :=
  (m.modifyTracer tracer fun t => { t with capture := t.capture.finish index o }).write
    ((m.tracers[tracer]?.map (·.capture.finishLog index o)).getD [])

/-- Telling an observer changes nothing but what observers and tracers know. -/
theorem tell_eq (m : Machine) (e : Event) (observer : Nat) :
    ∃ observers tracers log, m.tell e observer = { m with observers, tracers, log } := by
  rw [tell]
  split
  · exact ⟨m.observers, m.tracers, m.log, rfl⟩
  · exact ⟨_, m.tracers, m.log, rfl⟩
  · split
    · exact ⟨m.observers, m.tracers, m.log, rfl⟩
    · exact ⟨m.observers, _, _, rfl⟩

/-- What telling an observer about an event does depends on what the observer is for. -/
theorem tell_cases (m : Machine) (e : Event) (observer : Nat) :
    m.observers[observer]? = none ∧ m.tell e observer = m ∨
    (∃ events, m.observers[observer]? = some (.transcript events) ∧ m.tell e observer =
      { m with observers := m.observers.set observer (.transcript (events ++ [e])) }) ∨
    ∃ k watched log, m.observers[observer]? = some (.follower k watched) ∧ m.tell e observer =
      { m with
        tracers := m.tracers.modify k fun t =>
          { t with capture := t.capture.observe watched m.testCase e }
        log } := by
  cases hobserver : m.observers[observer]? with
  | none => exact Or.inl ⟨rfl, by rw [tell, hobserver]⟩
  | some o =>
    cases o with
    | transcript events => exact Or.inr (Or.inl ⟨events, rfl, by rw [tell, hobserver]⟩)
    | follower k watched =>
      refine Or.inr (Or.inr ⟨k, watched, ?_⟩)
      cases ht : m.tracers[k]? with
      | none =>
        refine ⟨m.log, rfl, ?_⟩
        rw [List.modify_eq_self (List.getElem?_eq_none_iff.mp ht)]
        simp only [tell, hobserver, ht]
      | some t =>
        refine ⟨m.log ++ t.capture.observeLog e, rfl, ?_⟩
        rw [List.modify_eq_set_getElem?, ht]
        simp only [tell, hobserver, ht]
        rfl

theorem notify_eq (m : Machine) (audience : List Nat) (e : Event) :
    ∃ observers tracers log, m.notify audience e = { m with observers, tracers, log } := by
  rw [notify]
  induction audience generalizing m with
  | nil => exact ⟨m.observers, m.tracers, m.log, rfl⟩
  | cons observer audience ih =>
    obtain ⟨observers, tracers, log, htell⟩ := m.tell_eq e observer
    rw [List.foldl_cons, htell]
    exact ih _

/-- What a stub answers changes nothing but the log and the stores of mocked calls. -/
theorem answerFrom_eq (m : Machine) (stub : Call) (receiver : Value) (args : List Value)
    (sink : Sink) :
    ∃ stores log, (m.answerFrom stub receiver args sink).1 = { m with stores, log } := by
  have hdeliver (c : Call) : ∃ stores log, (m.deliver sink c).1 = { m with stores, log } := by
    rw [deliver]
    split
    · exact ⟨_, _, rfl⟩
    · exact ⟨_, _, rfl⟩
  obtain ⟨stores, log, heq⟩ := hdeliver
    (stub.mocked receiver args ((m.catalog.lookup stub.target stub.method).map (·.2.shape))
      m.testCase)
  refine ⟨stores, log, ?_⟩
  rw [← heq, answerFrom]
  rcases m.deliver sink _ with ⟨m', _ | _ | _⟩ <;> rfl

/-- What a double answers changes nothing but the log and the stores of mocked calls. -/
theorem answerDouble_eq (m : Machine) (d : TestDouble) (method : String) (args : List Value) :
    ∃ stores log, (m.answerDouble d method args).1 = { m with stores, log } := by
  rw [answerDouble]
  split
  · exact ⟨m.stores, m.log, rfl⟩
  · split
    · exact ⟨m.stores, m.log, rfl⟩
    · split
      · exact m.answerFrom_eq _ _ _ _
      · exact ⟨m.stores, m.log, rfl⟩

end Machine

/-- The outcome with another value, if there is a value. -/
def Outcome.withValue (v : Value) : Outcome → Outcome
  | .returned _ => .returned v
  | .raised e => .raised e

/-- Goes on with the outcome of a reply, if there is one. -/
def Reply.andThen (x : Reply) (f : Machine → Outcome → Reply) : Reply :=
  match x with
  | (m, some o) => f m o
  | (m, none) => (m, none)

@[simp] theorem Reply.andThen_some (m : Machine) (o : Outcome) (f : Machine → Outcome → Reply) :
    Reply.andThen (m, some o) f = f m o := rfl

@[simp] theorem Reply.andThen_none (m : Machine) (f : Machine → Outcome → Reply) :
    Reply.andThen (m, none) f = (m, none) := rfl

/-- The trace of what goes on with the outcome of a reply. -/
def Reply.traceThen (x : Reply) (rest : Machine → Outcome → List Moment) : List Moment :=
  match x with
  | (m, some o) => rest m o
  | (_, none) => []

@[simp] theorem Reply.traceThen_some (m : Machine) (o : Outcome)
    (rest : Machine → Outcome → List Moment) : Reply.traceThen (m, some o) rest = rest m o := rfl

@[simp] theorem Reply.traceThen_none (m : Machine) (rest : Machine → Outcome → List Moment) :
    Reply.traceThen (m, none) rest = [] := rfl

theorem Reply.andThen_pure (x : Reply) : (x.andThen fun m o => (m, some o)) = x := by
  obtain ⟨m, _ | o⟩ := x <;> rfl

section

variable (host : Host) (answer : Machine → Message → Reply)
  (traced : Machine → Message → List Moment)

/-! ### Procedures and recorders -/

theorem Procedure.run_send (m : Machine) (receiver : Value) (method : String) (args : List Value)
    (next : Outcome → Procedure) :
    (send receiver method args next).run host answer m =
      (answer m (.send receiver method args)).andThen fun m' o => (next o).run host answer m' := by
  rw [Procedure.run]
  rcases answer m (.send receiver method args) with ⟨m', _ | o⟩ <;> rfl

theorem Procedure.run_construct (m : Machine) (type : TypeName) (args : List Value)
    (next : Outcome → Procedure) :
    (construct type args next).run host answer m =
      (answer m (.construct type args)).andThen fun m' o => (next o).run host answer m' := by
  rw [Procedure.run]
  rcases answer m (.construct type args) with ⟨m', _ | o⟩ <;> rfl

theorem Procedure.run_allocate (m : Machine) (type : TypeName) (args : List Value)
    (next : Outcome → Procedure) :
    (allocate type args next).run host answer m =
      (answer m (.allocate type args)).andThen fun m' o => (next o).run host answer m' := by
  rw [Procedure.run]
  rcases answer m (.allocate type args) with ⟨m', _ | o⟩ <;> rfl

/-- A recorder makes a record, lets the inner implementation run and ends the record. -/
theorem Implementation.run_recorder (m : Machine) (receiver : Value) (args : List Value)
    (tracer : Nat) (key : MethodRef) (shape : Option Shape) (location : String)
    (inner : Implementation) :
    (Implementation.recorder tracer key shape location inner).run host answer m receiver args =
      (inner.run host answer (m.recording tracer (m.recordedCall key shape location args))
        receiver args).andThen fun m' o =>
          (m'.recordEnded tracer (m.recordCount tracer) o, some o) := by
  rcases hinner : inner.run host answer
    (m.recording tracer (m.recordedCall key shape location args)) receiver args with ⟨m', _ | o⟩ <;>
  · rw [Machine.recording, Machine.recordedCall] at hinner
    rw [Implementation.run, hinner]
    rfl

/-! ### Dispatches whose implementation is known -/

/-- A dispatch whose implementation has been found: the subscribers learn of its begin and of its
end. -/
def Machine.enact (m : Machine) (owner : Target) (entry : LocatedCode) (receiver : Value)
    (method : String) (args : List Value) : Reply :=
  (entry.implementation.run host answer
    (m.notify m.subscribers (m.calledEvent owner entry receiver method args))
    receiver args).andThen fun m' o =>
      (m'.notify m.subscribers (.ofOutcome owner method o), some o)

/-- Without subscribers a dispatch is nothing but its implementation. -/
theorem Machine.enact_of_subscribers_nil {m : Machine} (h : m.subscribers = []) (owner : Target)
    (entry : LocatedCode) (receiver : Value) (method : String) (args : List Value) :
    m.enact host answer owner entry receiver method args =
      entry.implementation.run host answer m receiver args := by
  rw [Machine.enact, h]
  exact Reply.andThen_pure _

/-- A dispatch enacts the implementation that handles its method, whether anybody listens. -/
theorem Machine.dispatch_of_resolve {m : Machine} {target owner : Target} {method : String}
    {entry : LocatedCode} (h : m.resolve target method = some (owner, entry)) (receiver : Value)
    (args : List Value) :
    m.dispatch host answer target receiver method args =
      m.enact host answer owner entry receiver method args := by
  rw [Machine.dispatch, h]
  cases hsub : m.subscribers with
  | nil => exact (m.enact_of_subscribers_nil host answer hsub owner entry receiver method args).symm
  | cons o os =>
    rw [Machine.enact, hsub]
    rcases hrun : entry.implementation.run host answer
      (m.notify (o :: os) (m.calledEvent owner entry receiver method args)) receiver args
      with ⟨m', _ | o'⟩ <;>
    · rw [Machine.calledEvent] at hrun
      simp only [hrun]
      rfl

theorem Machine.dispatch_of_resolve_none {m : Machine} {target : Target} {method : String}
    (h : m.resolve target method = none) (receiver : Value) (args : List Value) :
    m.dispatch host answer target receiver method args =
      (m, some (.raised (.undefinedMethod target method))) := by
  rw [Machine.dispatch, h]

/-- A double that nobody stubs does not expect any message. -/
theorem Machine.handle_double {m : Machine} (h : m.doubleHandler = none) (d : TestDouble)
    (method : String) (args : List Value) :
    m.handle host answer (.send (.double d) method args) =
      (m, some (.raised (.unexpectedMessage d method))) := by
  rw [Machine.handle, Machine.answerDouble, h]

/-! ### Creation of instances -/

/-- The machine on which the object of a new instance has been created. -/
def Machine.allocated (m : Machine) (type : TypeName) : Machine :=
  { m with heap := (m.heap.newObject type []).2 }

/-- A type without a constructor creates an instance and does nothing else. -/
theorem Machine.allocate_of_resolve_none {m : Machine} {type : TypeName}
    (h : (m.allocated type).resolve (.instances type) constructorName = none) (args : List Value) :
    m.allocate host answer type args =
      (m.allocated type, some (.returned (.object m.heap.next type))) := by
  rw [Machine.allocated] at h
  simp only [Machine.allocate, h]
  rfl

/-- A type with a constructor creates an instance, and the value of the constructor is dropped. -/
theorem Machine.allocate_of_resolve {m : Machine} {type : TypeName} {found : Target × LocatedCode}
    (h : (m.allocated type).resolve (.instances type) constructorName = some found)
    (args : List Value) :
    m.allocate host answer type args =
      ((m.allocated type).dispatch host answer (.instances type) (.object m.heap.next type)
        constructorName args).andThen fun m' o =>
          (m', some (o.withValue (.object m.heap.next type))) := by
  have hobject : (m.heap.newObject type []).1 = .object m.heap.next type := rfl
  rcases hconstructor : (m.allocated type).dispatch host answer (.instances type)
    (.object m.heap.next type) constructorName args with ⟨m', _ | _ | _⟩ <;>
  · rw [Machine.allocated] at h hconstructor
    simp only [Machine.allocate, h, hobject, hconstructor]
    rfl

/-! ### Traces -/

/-- The trace of a procedure; `traced` gives the traces of its messages. -/
def Procedure.trace (m : Machine) : Procedure → List Moment
  | .finish _ => []
  | .onHeap work next =>
    Procedure.trace { m with heap := (work m.heap).2 } (next (work m.heap).1)
  | .send receiver method args next =>
    traced m (.send receiver method args) ++
      (answer m (.send receiver method args)).traceThen fun m' o => Procedure.trace m' (next o)
  | .construct type args next =>
    traced m (.construct type args) ++
      (answer m (.construct type args)).traceThen fun m' o => Procedure.trace m' (next o)
  | .allocate type args next =>
    traced m (.allocate type args) ++
      (answer m (.allocate type args)).traceThen fun m' o => Procedure.trace m' (next o)
  | .callback number next => .hosted m number :: Procedure.trace (host number m) next

/-- The trace of an implementation. Stubs send no messages. -/
def Implementation.trace (m : Machine) (receiver : Value) (args : List Value) :
    Implementation → List Moment
  | .code body => (body receiver args).trace host answer traced m
  | .stubbed _ _ _ => []
  | .recorder tracer key shape location inner =>
    .recorded m tracer (m.recordedCall key shape location args) inner ::
      Implementation.trace (m.recording tracer (m.recordedCall key shape location args)) receiver
        args inner

/-- The trace of a dispatch. -/
def Machine.dispatchTrace (m : Machine) (target : Target) (receiver : Value) (method : String)
    (args : List Value) : List Moment :=
  match m.resolve target method with
  | none => []
  | some (owner, entry) =>
    .began m owner entry receiver method args ::
      entry.implementation.trace host answer traced
        (m.notify m.subscribers (m.calledEvent owner entry receiver method args)) receiver args

/-- The trace of the creation of an instance. -/
def Machine.allocateTrace (m : Machine) (type : TypeName) (args : List Value) : List Moment :=
  (m.allocated type).dispatchTrace host answer traced (.instances type)
    (.object m.heap.next type) constructorName args

/-- The trace of a message; `traced` gives the traces of the messages it leads to. -/
def Machine.handleTrace (m : Machine) : Message → List Moment
  | .send receiver method args =>
    match receiver with
    | .double _ => []
    | receiver =>
      m.dispatchTrace host answer traced (.ofReceiver receiver) receiver method args
  | .construct type args =>
    match m.resolve (.typeItself type) allocatorName with
    | some _ =>
      m.dispatchTrace host answer traced (.typeItself type) (.type type) allocatorName args
    | none => m.allocateTrace host answer traced type args
  | .allocate type args => m.allocateTrace host answer traced type args

end

/-- The trace of a message that leads to messages nested at most so deep. -/
def Machine.trace (host : Host) : Nat → Machine → Message → List Moment
  | 0, _, _ => []
  | depth + 1, m, message =>
    m.handleTrace host (Machine.answer host depth) (Machine.trace host depth) message

/-- A program run by a machine, its messages nested at most so deep. -/
def Machine.execute (host : Host) (depth : Nat) (m : Machine) (program : Procedure) : Reply :=
  program.run host (Machine.answer host depth) m

/-- The trace of a program run by a machine. -/
def Machine.executionTrace (host : Host) (depth : Nat) (m : Machine) (program : Procedure) :
    List Moment :=
  program.trace host (Machine.answer host depth) (Machine.trace host depth) m

end MockAudit

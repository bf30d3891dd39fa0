import MockAudit.Machine.Stubs
import MockAudit.Machine.Tracers
import MockAudit.Proofs.Correlation
import MockAudit.Proofs.Trace
import Mathlib.Tactic.SplitIfs

/-!
# Sessions

In a session a program runs while the host adds, starts and stops tracers and attaches and detaches
sets of stubs. It may do so at any point, between two messages as well as deep inside of one, and in
any order; which operation comes next may depend on everything that happened before.

Every record that a tracer keeps has an *origin*: it was handed in, or it was made because an
implementation was about to run. The origins are read off the trace of the run, without a look at
the records themselves.

## Main definitions

* `Operation`, `Machine.perform`: the operations of a host.
* `Host.performing`: a host that performs one operation whenever it is called.
* `Origin`: where a record comes from.
* `Moment.origins`, `originsOf`: the origins that the moments of a trace add for a tracer.
-/

namespace MockAudit

/-! ### Operations -/

/-- An operation of the host. -/
inductive Operation
  | addTracer (strategy : Strategy) (filter : ArtifactFilter)
  | register (tracer : Nat) (target : Target) (methods : List String)
  | start (tracer : Nat)
  | stop (tracer : Nat)
  /-- Hands in a record that was captured elsewhere. -/
  | observe (tracer : Nat) (c : Call)
  | attach (registry : Registry) (sink : Sink)
  | detach (stubs : Nat)
  | openStore
  | enterTestCase (context : TestContext)
  | leaveTestCase

/-- Performs an operation. Stopping fails if a record was handed in whose arguments are malformed;
then the tracer is not stopped. -/
def Machine.perform (m : Machine) : Operation → Machine
  | .addTracer strategy filter => (m.addTracer { strategy, filter }).1
  | .register tracer target methods =>
    m.modifyTracer tracer fun t => { t with watched := t.watched.watch target methods }
  | .start tracer => (m.startTracer tracer).1
  | .stop tracer =>
    match m.stopTracer tracer with
    | .ok (m', _) => m'
    | .error _ => m
  | .observe tracer c => m.observeCall tracer c
  | .attach registry sink => (m.attachStubs registry sink).1
  | .detach stubs => m.detachStubs stubs
  | .openStore => m.newStore.1
  | .enterTestCase context => { m with contexts := context :: m.contexts }
  | .leaveTestCase => { m with contexts := m.contexts.tail }

/-- A host that performs the operation a plan gives for its number and the state. -/
def Host.performing (plan : Nat → Machine → Operation) : Host :=
  fun number m => m.perform (plan number m)

/-! ### Origins -/

/-- Where a record comes from: the record as it was made, and the implementation that was about to
run, unless the record was handed in. -/
structure Origin where
  opening : Call
  ran : Option Implementation

/-- Whether a tracer has not been stopped. -/
def Tracer.isOpen (t : Tracer) : Bool :=
  match t.state with
  | .stopped _ _ => false
  | _ => true

/-- The record a capture makes when it takes note of an event, if it makes one. -/
def Capture.newRecord? (watched : WatchList) (testCase : Option String) : Event → Option Call
  | .called owner method receiver binding location =>
    (watchedAs? watched owner receiver method).map (recordOf · method binding location testCase)
  | .returned .. | .unwound .. => none

/-- Taking note of an event adds the record it makes, or ends one. -/
theorem Capture.observe_records (watched : WatchList) (testCase : Option String) (c : Capture)
    (e : Event) :
    (c.observe watched testCase e).records = c.records ++ (newRecord? watched testCase e).toList ∨
      newRecord? watched testCase e = none ∧
        ∃ index o, (c.observe watched testCase e).records =
          c.records.modify index (ended · o) := by
  have hend (o : Outcome) : (observe.endFrame c o).records = c.records ∨
      ∃ index o', (observe.endFrame c o).records = c.records.modify index (ended · o') := by
    obtain ⟨records, frames⟩ := c
    rcases frames with _ | ⟨_ | index, frames⟩
    · exact Or.inl rfl
    · exact Or.inl rfl
    · exact Or.inr ⟨index, o, finish_records ⟨records, frames⟩ index o⟩
  cases e with
  | called owner method receiver binding location =>
    refine Or.inl ?_
    rw [observe, newRecord?]
    cases watchedAs? watched owner receiver method with
    | none => exact (List.append_nil _).symm
    | some target => rfl
  | returned owner method v =>
    exact (hend (.returned v)).imp (·.trans (List.append_nil _).symm) fun h => ⟨rfl, h⟩
  | unwound owner method e =>
    exact (hend (.raised e)).imp (·.trans (List.append_nil _).symm) fun h => ⟨rfl, h⟩

/-- The origins for tracers, by their numbers. -/
abbrev Ledger := Nat → List Origin

namespace Ledger

/-- The ledger without any origin. -/
def empty : Ledger := fun _ => []

/-- A ledger with the entries of a second one behind its own. -/
def add (ledger added : Ledger) : Ledger := fun tracer => ledger tracer ++ added tracer

/-- The ledger with origins for one tracer. -/
def ofTracer (tracer : Nat) (origins : List Origin) : Ledger :=
  fun tracer' => if tracer' = tracer then origins else []

@[simp] theorem add_empty (ledger : Ledger) : ledger.add empty = ledger := by
  funext tracer
  exact List.append_nil _

@[simp] theorem ofTracer_nil (tracer : Nat) : ofTracer tracer [] = empty := by
  funext tracer'
  exact ite_self _

theorem add_assoc (ledger added more : Ledger) :
    (ledger.add added).add more = ledger.add (added.add more) := by
  funext tracer
  exact List.append_assoc _ _ _

end Ledger

namespace Machine

/-- The entries of a ledger for the tracers that have not been stopped. -/
def openPart (m : Machine) (ledger : Ledger) : Ledger := fun tracer =>
  if m.tracers[tracer]?.any Tracer.isOpen then ledger tracer else []

@[simp] theorem openPart_empty (m : Machine) : m.openPart .empty = .empty := by
  funext tracer
  exact ite_self _

@[simp] theorem openPart_add (m : Machine) (ledger added : Ledger) :
    m.openPart (ledger.add added) = (m.openPart ledger).add (m.openPart added) := by
  funext tracer
  simp only [openPart, Ledger.add]
  split_ifs <;> rfl

/-- The origin of the record made for the tracer that an observer serves, when it is told about an
event while an implementation is about to run. -/
def heard (m : Machine) (e : Event) (ran : Implementation) (observer : Nat) : Ledger :=
  match m.observers[observer]? with
  | some (.follower tracer watched) =>
    .ofTracer tracer ((Capture.newRecord? watched m.testCase e).toList.map (⟨·, some ran⟩))
  | _ => .empty

/-- The origins of the records made when several observers are told about an event. -/
def heardBy (m : Machine) (e : Event) (ran : Implementation) (audience : List Nat) : Ledger :=
  audience.foldr (fun observer ledger => (m.heard e ran observer).add ledger) .empty

end Machine

/-- The origin of the record that an operation hands in. -/
def Operation.handedIn : Operation → Ledger
  | .observe tracer c => .ofTracer tracer [⟨c, none⟩]
  | _ => .empty

/-- The origins that a moment adds for the tracers that have not been stopped. -/
def Moment.origins (plan : Nat → Machine → Operation) : Moment → Ledger
  | .began m owner entry receiver method args =>
    m.openPart (m.heardBy (m.calledEvent owner entry receiver method args) entry.implementation
      m.subscribers)
  | .recorded m tracer call inner => m.openPart (.ofTracer tracer [⟨call, some inner⟩])
  | .hosted m number => m.openPart (plan number m).handedIn

/-- The origins of all records that tracers get in a trace before they are stopped. -/
def originsOf (plan : Nat → Machine → Operation) (trace : List Moment) : Ledger :=
  trace.foldr (fun moment ledger => (moment.origins plan).add ledger) .empty

@[simp] theorem originsOf_nil (plan : Nat → Machine → Operation) : originsOf plan [] = .empty := rfl

@[simp] theorem originsOf_cons (plan : Nat → Machine → Operation) (moment : Moment)
    (trace : List Moment) :
    originsOf plan (moment :: trace) = (moment.origins plan).add (originsOf plan trace) := rfl

end MockAudit

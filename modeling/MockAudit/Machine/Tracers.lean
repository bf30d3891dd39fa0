import MockAudit.Machine.Basic

/-!
# Tracers at work

A tracer is started and stopped once. While it runs, the methods on its watch list are replaced by
recorders, or the events of all dispatches are followed; stopping undoes this and keeps the
captured calls that are no artifacts of mocking.
-/

namespace MockAudit.Machine

/-- Adds a tracer; the answer is its number. -/
def addTracer (m : Machine) (t : Tracer) : Machine × Nat :=
  ({ m with tracers := m.tracers ++ [t] }, m.tracers.length)

/-- Replaces a method by a recorder around the implementation that handles it now. A method that
nothing handles stays as it is. -/
def wrap (tracer : Nat) (state : Machine × List Displaced) (key : MethodRef) :
    Machine × List Displaced :=
  let (m, displaced) := state
  match m.resolve key.1 key.2 with
  | none =>
    (m.write [.warn ("Cannot trace " ++ key.1.describe key.2 ++ ": method is not defined")],
      displaced)
  | some (_, entry) =>
    let shape := (m.catalog.lookup key.1 key.2).map (·.2.shape)
    let recorder := Implementation.recorder tracer key shape entry.location entry.implementation
    (m.install key (some ⟨recorder, entry.location⟩), displaced ++ [⟨key, m.methods key⟩])

/-- Begins to watch in the way of a strategy. -/
def intercept (m : Machine) (tracer : Nat) (t : Tracer) : Machine × Interception :=
  match t.strategy with
  | .wrap =>
    let (m, displaced) := t.watched.keys.foldl (wrap tracer) (m, [])
    (m, .wrapped displaced)
  | .events =>
    let (m, observer) := m.subscribe (.follower tracer t.watched)
    (m, .subscribed observer)

/-- Undoes what was done to watch. -/
def release (m : Machine) : Interception → Machine
  | .wrapped displaced => m.restoreAll displaced
  | .subscribed observer => m.unsubscribe observer

/-- Starts a tracer, unless it was started before. -/
def startTracer (m : Machine) (tracer : Nat) : Machine × Except Error Unit :=
  match m.tracers[tracer]? with
  | some t =>
    match t.state with
    | .ready =>
      let (m, installation) := m.intercept tracer t
      let m := m.write [.debug ("Tracing " ++ toString t.watched.count ++ " method(s) via "
        ++ t.strategy.name)]
      (m.modifyTracer tracer fun t => { t with state := .running installation }, .ok ())
    | _ => (m, .error .tracerAlreadyStarted)
  | none => (m, .error .tracerAlreadyStarted)

/-- Stops a tracer; the answer is the list of real calls. Stopping again gives the same list. -/
def stopTracer (m : Machine) (tracer : Nat) : Except Fault (Machine × List Call) :=
  match m.tracers[tracer]? with
  | none => .ok (m, [])
  | some t =>
    match t.state with
    | .stopped calls _ => .ok (m, calls)
    | state => do
      let captured := t.capture.records
      let calls ← t.filter.keepReal captured
      let stats : CaptureCounts := ⟨captured.length, captured.length - calls.length⟩
      let m := match state with
        | .running installation => m.release installation
        | _ => m
      let m := m.write [.debug ("Collected " ++ toString calls.length ++ " real calls ("
        ++ toString stats.filtered ++ " were filtered)")]
      return (m.modifyTracer tracer fun t =>
        { t with capture := { t.capture with records := [] }, state := .stopped calls stats },
        calls)

/-- Adds a record captured elsewhere. -/
def observeCall (m : Machine) (tracer : Nat) (c : Call) : Machine :=
  m.modifyTracer tracer fun t => { t with capture := t.capture.record c }

end MockAudit.Machine

namespace MockAudit.Tracer

/-- The calls captured so far; once stopped, the real ones. -/
def captured (t : Tracer) : List Call :=
  match t.state with
  | .stopped calls _ => calls
  | _ => t.capture.records

/-- The numbers of calls so far; once stopped, they are final. -/
def stats (t : Tracer) : CaptureCounts :=
  match t.state with
  | .stopped _ stats => stats
  | _ => ⟨t.capture.records.length, 0⟩

/-- Whether a tracer is started and not yet stopped. -/
def isRunning (t : Tracer) : Bool :=
  match t.state with
  | .running _ => true
  | _ => false

end MockAudit.Tracer

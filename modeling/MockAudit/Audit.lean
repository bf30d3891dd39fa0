import MockAudit.Checker.Loading
import MockAudit.Configuration.Basic
import MockAudit.Machine.Stubs
import MockAudit.Machine.Tracers
import MockAudit.Text.Quoted
import MockAudit.Verification

/-!
# Audits

An audit of one program. It is *prepared* before the first test: the checker is built, and the
stubbed methods are traced. It is *concluded* after the last test: the tracer is stopped, and the
two passes find the offenses. In between, stubs report the mocked calls.

An audit stays with one machine. That it is prepared for another machine after it was reset is left
out; the checker, which is kept, would go on to answer for the types of the earlier one.
-/

namespace MockAudit

/-- The state of an audit. -/
structure Audit where
  configuration : Configuration
  machine : Machine
  /-- The configured stubs. -/
  registry : Registry := Registry.empty
  /-- Whether the audit has been attached to its program. -/
  attached : Bool := false
  /-- The tracer of the present run. -/
  tracer : Option Nat := none
  /-- The store of the mocked calls. -/
  store : Nat
  realCalls : List Call := []
  phase : Phase := .idle

namespace Audit

/-- An audit of a program with the given settings and those they imply. -/
def start (configuration : Configuration) (m : Machine) : Audit :=
  let (m, store) := m.newStore
  { configuration := configuration.normalize, machine := m, store }

/-- An audit that uses the given checker instead of building one. -/
def useChecker (a : Audit) (checker : Checker) : Audit :=
  { a with machine := { a.machine with checker := some checker } }

/-- The mocked calls kept so far. -/
def mockedCalls (a : Audit) : List Call :=
  a.machine.stored a.store

/-- Writes to the log. -/
def write (a : Audit) (lines : List LogLine) : Audit :=
  { a with machine := a.machine.write lines }

/-- Enters a later phase. -/
def enter (a : Audit) (next : Phase) : Except Error Audit :=
  if a.phase.mayEnter next then
    .ok ({ a with phase := next }.write [.debug ("Entering phase " ++ next.name)])
  else .error (.phase a.phase next)

/-- Where stubs report mocked calls from now on. Calls are checked if the settings ask for it and
there is a checker, and kept if the settings ask for that. -/
def sink (a : Audit) : Sink :=
  { judge :=
      if a.configuration.typeCheck.isSome && a.machine.checker.isSome then
        .checker a.configuration.raiseOnMissingTypes
      else .lenient
    store := if a.configuration.storeMockedCalls then some a.store else none }

/-- Reports a mocked call; the answer is the reason if the call is refused. -/
def report (a : Audit) (c : Call) : Audit × Except Fault (Option Failure) :=
  let (m, verdict) := a.machine.deliver a.sink c
  ({ a with machine := m }, verdict)

/-- The state after a step and its result. -/
abbrev Step (α : Type) := Audit × Except Error α

/-- Builds the configured checker, unless there is one. -/
def ensureChecker (a : Audit) (files : Files) : Step Unit :=
  match a.configuration.typeCheck, a.machine.checker with
  | some kind, none =>
    let dirs := a.configuration.signatureDirs
    let built := Checker.build files kind a.machine.environment dirs
    let a := a.write built.lines
    match built.value with
    | .error e => (a, .error e)
    | .ok checker =>
      let line := "Set up type checker: " ++ kind.name ++ " (load_dirs: ["
        ++ String.intercalate ", " (dirs.map Text.quotePath) ++ "])"
      ((a.useChecker checker).write [.info line], .ok ())
  | _, _ => (a, .ok ())

/-- Starts to trace the stubbed methods. -/
def startTracing (a : Audit) : Step Unit :=
  let strategy := a.configuration.traceVia
  let a := a.write [.info ("Collect real calls via " ++ strategy.name)]
  match a.configuration.filter? with
  | none => (a, .error .pattern)
  | some filter =>
    let targets := a.registry.targets
    let a := a.write (targets.map fun (target, methods) =>
      .debug ("Trace " ++ target.text ++ " methods: " ++ String.intercalate ", " methods))
    let watched := targets.foldl
      (fun list (target, methods) => WatchList.watch list target methods) []
    let (m, tracer) := a.machine.addTracer { strategy, filter, watched }
    match m.startTracer tracer with
    | (m, .error e) => ({ a with machine := m }, .error e)
    | (m, .ok ()) => ({ a with machine := m, tracer := some tracer }, .ok ())

/-- Prepares a run. -/
def prepare (a : Audit) (files : Files) : Step Unit :=
  match a.enter .collecting with
  | .error e => (a, .error e)
  | .ok a =>
    match { a with attached := true }.ensureChecker files with
    | (a, .error e) => (a, .error e)
    | (a, .ok ()) =>
      let a := if a.configuration.storeMockedCalls then a.write [.info "Collect mocked calls"]
        else a
      if a.configuration.traceRealCalls then a.startTracing else (a, .ok ())

/-- The lines that list calls. -/
def callLines (calls : List Call) : String :=
  String.intercalate "\n" (calls.map fun c => "  " ++ c.text)

/-- Stops the tracer of the run and keeps the real calls. -/
def drain (a : Audit) : Except Fault Audit :=
  match a.tracer with
  | none => .ok a
  | some tracer => do
    let (m, calls) ← a.machine.stopTracer tracer
    return { a with machine := m, realCalls := calls }

/-- Runs the type pass over the mocked calls that were kept. -/
def typePass (a : Audit) : Step (List Call) :=
  match a.enter .typeChecking with
  | .error e => (a, .error e)
  | .ok a =>
    match a.machine.checker with
    | none => (a, .error (.configuration .noChecker))
    | some checker =>
      match TypePass.run checker a.machine.environment a.realCalls a.mockedCalls
          a.configuration.raiseOnMissingAutoTypes with
      | .error fault => (a, .error (.callFault fault))
      | .ok pass => ((a.useChecker pass.value.1).write pass.lines, .ok pass.value.2)

/-- The hierarchy against which contracts are verified: that of the program, once attached. -/
def hierarchy (a : Audit) : Hierarchy :=
  if a.attached then a.machine.catalog.hierarchy else Hierarchy.builtin

/-- Runs the contract pass over the stubs and marks those that fail. -/
def contractPass (a : Audit) : Step (List Call) :=
  match a.enter .contractVerifying with
  | .error e => (a, .error e)
  | .ok a =>
    let pass := ContractPass.run a.realCalls a.hierarchy a.registry.stubs
    let registry := a.registry.mapStubs (ContractPass.mark a.realCalls a.hierarchy)
    ({ a with registry }.write pass.lines, .ok pass.value)

/-- Goes on with the result of a step, unless it failed. -/
def Step.andThen {α β : Type} (s : Step α) (next : Audit → α → Step β) : Step β :=
  match s with
  | (a, .ok result) => next a result
  | (a, .error e) => (a, .error e)

/-- Runs a pass if it is asked for. -/
def passIf (a : Audit) (enabled : Bool) (pass : Audit → Step (List Call)) : Step (List Call) :=
  if enabled then pass a else (a, .ok [])

/-- Ends a run; the answer is the list of the offenses that the passes found, those of the type
pass first. `debugRequest` is the request for debug output in the environment. -/
def conclude (a : Audit) (debugRequest : Option String) : Step (List Call) :=
  match a.enter .draining with
  | .error e => (a, .error e)
  | .ok a =>
    match a.drain with
    | .error fault => (a, .error (.callFault fault))
    | .ok a =>
      let a :=
        if a.configuration.showsDebug debugRequest then
          a.write [.debug ("Stored mocked calls:\n" ++ callLines a.mockedCalls),
            .debug ("Traced real calls:\n" ++ callLines a.realCalls)]
        else a
      (a.passIf a.configuration.autoTypeCheck typePass).andThen fun a mismatched =>
      (a.passIf a.configuration.verifyMockContracts contractPass).andThen fun a unbacked =>
      match a.enter .reported with
      | .error e => (a, .error e)
      | .ok a => (a, .ok (mismatched ++ unbacked))

/-- Stops tracing and forgets all that was collected. The checker stays. -/
def reset (a : Audit) : Except Fault Audit := do
  let a ← a.drain
  let m := { a.machine with stores := a.machine.stores.set a.store [] }
  return { a with
    machine := m, registry := Registry.empty, attached := false, tracer := none,
    realCalls := [], phase := .idle }

end Audit

end MockAudit

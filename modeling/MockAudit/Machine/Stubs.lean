import MockAudit.Machine.Basic

/-!
# Stubs at work

Installing a registry replaces each method that is stubbed for real by its stubs, and routes the
messages to doubles to the stubs configured on them. Uninstalling puts everything back.
-/

namespace MockAudit

namespace Machine

/-- Replaces a method by stubs, if there are any. -/
def replaceByStubs (sink : Sink) (state : Machine × List Displaced) (key : MethodRef)
    (stubs : List Call) : Machine × List Displaced :=
  match stubs with
  | [] => state
  | stubs =>
    let (m, displaced) := state
    (m.install key (some ⟨.stubbed key stubs sink, stubLocation⟩),
      displaced ++ [⟨key, m.methods key⟩])

/-- Whether a stub is configured on a double. -/
def isOnDouble (stub : Call) : Bool :=
  stub.receiver.any (·.isDouble)

/-- Replaces one stubbed method. Stubs of the allocator go to the allocator. -/
def stubMethod (r : Registry) (sink : Sink) (state : Machine × List Displaced)
    (key : MethodRef) : Machine × List Displaced :=
  let stubs := (r.stubsOf key).filter (!isOnDouble ·)
  let state :=
    if key.1.onType then state
    else replaceByStubs sink state (.typeItself key.1.type, allocatorName)
      (stubs.filter (·.isOnAllocator))
  replaceByStubs sink state key (stubs.filter (!·.isOnAllocator))

/-- The stubbed methods of a registry in order. -/
def stubbedKeys (r : Registry) : List MethodRef :=
  r.targets.flatMap fun (target, methods) => methods.map (target, ·)

/-- Installs the stubs of a registry, which report to a sink. -/
def installStubs (m : Machine) (r : Registry) (sink : Sink) : Machine × InstalledStubs :=
  let keys := stubbedKeys r
  let (m, displaced) := keys.foldl (stubMethod r sink) (m, [])
  let onDoubles := keys.flatMap fun key => (r.stubsOf key).filter isOnDouble
  let line (suffix : String) : LogLine :=
    .debug ("Installed " ++ toString displaced.length ++ " partial stub(s)" ++ suffix)
  match onDoubles with
  | [] => (m.write [line ""], ⟨displaced, none⟩)
  | stubs =>
    ({ m with doubleHandler := some ⟨stubs, sink⟩ }.write [line " and double stubs"],
      ⟨displaced, some m.doubleHandler⟩)

/-- Puts back what installed stubs have displaced. -/
def uninstallStubs (m : Machine) (set : InstalledStubs) : Machine :=
  let m := m.restoreAll set.displaced
  match set.previousHandler with
  | some handler => { m with doubleHandler := handler }
  | none => m

/-- Installs the stubs of a registry as a set of its own; the answer is its number. -/
def attachStubs (m : Machine) (r : Registry) (sink : Sink) : Machine × Nat :=
  let (m, set) := m.installStubs r sink
  ({ m with stubSets := m.stubSets ++ [some set] }, m.stubSets.length)

/-- Uninstalls a set of stubs, unless this was done before. -/
def detachStubs (m : Machine) (number : Nat) : Machine :=
  match m.stubSets[number]?.join with
  | some set => { m.uninstallStubs set with stubSets := m.stubSets.set number none }
  | none => m

end Machine

end MockAudit

import MockAudit.Checker.Loading
import MockAudit.Recording.File
import MockAudit.Report.Basic
import MockAudit.Verification

/-!
# Verifying recordings

A recording of mocked calls is verified against a recording of real calls. Each mocked call is
checked against the signatures and is also taken as a stub whose contract is verified.
-/

namespace MockAudit

/-- What is verified, and how. -/
structure VerifyRequest where
  /-- The recording of real calls. -/
  real : String
  /-- The recording of mocked calls. -/
  mocks : String
  typeCheck : Bool := false
  /-- The directories with signature files that come before inferred signatures. -/
  signatureDirs : List String := []
  contracts : Bool := true
  raiseOnMissing : Bool := true

/-- The offenses that the passes found. -/
structure FoundOffenses where
  typeOffenses : List Call
  contractOffenses : List Call

namespace FoundOffenses

/-- All offenses, those of the type pass first. -/
def offenses (o : FoundOffenses) : List Call :=
  o.typeOffenses ++ o.contractOffenses

/-- Whether neither pass found an offense. -/
def isClean (o : FoundOffenses) : Bool :=
  o.typeOffenses.isEmpty && o.contractOffenses.isEmpty

end FoundOffenses

namespace Command

/-- The types of two catalogs; for a type in both the first one counts. -/
def mergeCatalogs (first second : Catalog) : Catalog :=
  second.types.foldl (fun c (name, d) => if c.contains name then c else c.define name d) first

/-- The checker for recorded calls: that of the signature files, if there are any directories with
such. -/
def checkerFor (files : Files) (env : Environment) (directories : List String) :
    Logged (Except Error Checker) :=
  match directories with
  | [] => return .ok (Checker.fresh .annotations)
  | directories => do
    match ← Declarations.loadDirectories {} files env directories with
    | (_, .error e) => return .error e
    | (d, .ok count) =>
      Logged.line (.debug ("Loaded " ++ toString count ++ " declared signature(s)"))
      return .ok (.signatures d)

/-- Reads both recordings; the answer is their real and mocked calls, and their types. -/
def readRecordings (files : Files) (settings : VerifyRequest) :
    Except Error (List Call × List Call × Catalog) := do
  let real ← Recording.load files settings.real
  let mocks ← Recording.load files settings.mocks
  let (realCalls, heap) ← real.restoreCalls Heap.empty
  let (mockedCalls, _) ← mocks.restoreCalls heap
  return (realCalls, mockedCalls, mergeCatalogs real.catalog mocks.catalog)

/-- Checks mocked calls against the signatures of the files and of the real calls. -/
def checkMocked (files : Files) (settings : VerifyRequest) (env : Environment)
    (real mocked : List Call) : Logged (Except Error (List Call)) := do
  match ← checkerFor files env settings.signatureDirs with
  | .error e => return .error e
  | .ok checker =>
    match TypePass.run checker env real mocked settings.raiseOnMissing with
    | .error fault => return .error (.callFault fault)
    | .ok pass => return .ok (← pass).2

/-- Runs the passes that are asked for over two recordings. -/
def runPasses (files : Files) (settings : VerifyRequest) :
    Logged (Except Error FoundOffenses) := do
  match readRecordings files settings with
  | .error e => return .error e
  | .ok (real, mocked, catalog) =>
    let env := catalog.environment
    let checked ← if settings.typeCheck then checkMocked files settings env real mocked
      else pure (.ok [])
    match checked with
    | .error e => return .error e
    | .ok typeOffenses =>
      let contractOffenses ← if settings.contracts then ContractPass.run real env.hierarchy mocked
        else pure []
      return .ok { typeOffenses, contractOffenses }

/-- Verifies recordings and reports the offenses. -/
def verify (files : Files) (settings : VerifyRequest) : Logged (Except Error Report) := do
  if !settings.typeCheck && !settings.contracts then
    Logged.line (.warn "Nothing to verify: type checking and contracts are both disabled")
  let outcome ← runPasses files settings
  return outcome.map fun o => Report.ofOffenses o.offenses

end Command

end MockAudit

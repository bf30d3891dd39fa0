import MockAudit.Checker.Basic
import MockAudit.Contract

/-!
# The two passes of an audit

Once the real calls are known, mocked calls are checked against the signatures that can be
inferred from them, and the contract of every stub is verified against the real calls of its
method. Both passes go through all their subjects and collect the offenders.
-/

namespace MockAudit

/-- The call with a failure attached. -/
def Call.blame (c : Call) (f : Failure) : Call :=
  { c with failure := some f }

namespace ContractPass

/-- What is wrong with a stub in the light of real calls. A vacuous contract is not verified. -/
def failure? (real : List Call) (h : Hierarchy) (stub : Call) : Option ContractFailure :=
  let contract := Contract.ofStub stub
  if contract.isVacuous then none else contract.verify (real.filter (·.key == stub.key)) h

/-- A stub with what is wrong with it. -/
def mark (real : List Call) (h : Hierarchy) (stub : Call) : Call :=
  match failure? real h stub with
  | some f => stub.blame (.contract f)
  | none => stub

/-- The stubs whose contracts fail, each with its failure. -/
def offenses (real : List Call) (h : Hierarchy) (stubs : List Call) : List Call :=
  stubs.filterMap fun stub =>
    (failure? real h stub).map fun f => stub.blame (.contract f)

/-- The line logged for a stub. -/
def stubLine (stub : Call) : LogLine :=
  let contract := Contract.ofStub stub
  if contract.isVacuous then .debug ("Skipping no-op contract " ++ contract.text)
  else .debug ("Generated contract:\n  " ++ contract.text ++ "\n    (from stub: " ++ stub.text
    ++ ")")

/-- The line logged at the end of the pass. -/
def verdictLine (failed : Nat) : LogLine :=
  if failed = 0 then .info "Verifying mock contracts completed. All good"
  else .error ("Verifying mock contracts completed. Failed contracts: " ++ toString failed)

/-- Verifies the contracts of stubs; the answer is the list of offenders. -/
def run (real : List Call) (h : Hierarchy) (stubs : List Call) : Logged (List Call) := do
  let found := offenses real h stubs
  Logged.line (.info "Verifying mock contracts...")
  Logged.write (stubs.map stubLine)
  Logged.line (verdictLine found.length)
  return found

end ContractPass

namespace TypePass

/-- The mocked calls that fail their check, each with its failure. -/
def offenses (checker : Checker) (env : Environment) (strict : Bool) :
    List Call → Except Fault (List Call)
  | [] => .ok []
  | c :: cs => do
    let failure ← checker.check env c strict
    let rest ← offenses checker env strict cs
    return (failure.map fun f => c.blame (.typeCheck f)).toList ++ rest

/-- The line logged at the end of the pass. -/
def verdictLine (failed : Nat) : LogLine :=
  if failed = 0 then .info "Type-checking completed. All good"
  else .error ("Type-checking completed. Failed examples: " ++ toString failed)

/-- Makes the signatures inferred from real calls known to a checker and checks the mocked calls
with it; the answer is the checker with its new knowledge and the list of offenders. -/
def run (checker : Checker) (env : Environment) (real mocked : List Call) (strict : Bool) :
    Except Fault (Logged (Checker × List Call)) := do
  let inferred ← Inference.infer real
  let informed := checker.learn inferred
  let found ← offenses informed env strict mocked
  return do
    Logged.line (.debug ("Inferred " ++ toString inferred.length
      ++ " signature(s) from real calls"))
    Logged.write (checker.learnLog env inferred)
    Logged.line (.info "Type-checking mocked calls against auto-generated signatures...")
    Logged.write (mocked.flatMap (informed.checkLog · strict))
    Logged.line (verdictLine found.length)
    return (informed, found)

end TypePass

end MockAudit

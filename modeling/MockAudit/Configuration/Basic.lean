import MockAudit.Checker.Basic
import MockAudit.Log
import MockAudit.Machine.Basic
import MockAudit.Text.Blank
import MockAudit.Tracing.Filter

/-!
# Configurations

The settings of an audit. Some settings imply others: type-checking against inferred signatures
needs the real calls to infer from and the mocked calls to check, and verifying contracts needs the
real calls.
-/

namespace MockAudit

/-- The settings of an audit. -/
structure Configuration where
  /-- Whether the mocked and the real calls are written to the log at the end of a run. -/
  debug : Bool := false
  logLevel : Severity := .info
  /-- Whether output is coloured, if that is fixed. -/
  color : Option Bool := none
  /-- Whether mocked calls are kept for the type pass. -/
  storeMockedCalls : Bool := false
  /-- The kind of checker, if calls are checked at all. -/
  typeCheck : Option CheckerKind := none
  /-- The directories with signature files. -/
  signatureDirs : List String := ["sig"]
  /-- Whether a mocked call without a signature is refused when it happens. -/
  raiseOnMissingTypes : Bool := false
  /-- Whether a mocked call without a signature fails the type pass. -/
  raiseOnMissingAutoTypes : Bool := true
  traceRealCalls : Bool := false
  traceVia : Strategy := .wrap
  /-- Whether mocked calls are checked against signatures inferred from real calls. -/
  autoTypeCheck : Bool := false
  /-- Whether the contracts of stubs are verified against real calls. -/
  verifyMockContracts : Bool := false
  /-- Patterns of the locations whose calls are never real. -/
  ignoredCallLocations : List String := []
deriving DecidableEq

namespace Configuration

/-- Switches the type pass on, with what it needs, or off. -/
def withTypePass (c : Configuration) (enabled : Bool) : Configuration :=
  { c with
    autoTypeCheck := enabled
    traceRealCalls := enabled || c.traceRealCalls
    storeMockedCalls := enabled || c.storeMockedCalls }

/-- Switches the verification of contracts on, with what it needs, or off. -/
def withContractPass (c : Configuration) (enabled : Bool) : Configuration :=
  { c with
    verifyMockContracts := enabled
    traceRealCalls := enabled || c.traceRealCalls }

/-- Adds the settings that others imply. -/
def normalize (c : Configuration) : Configuration :=
  (c.withTypePass c.autoTypeCheck).withContractPass c.verifyMockContracts

/-- The filter that keeps real calls only, if its patterns can be read. -/
def filter? (c : Configuration) : Option ArtifactFilter :=
  ArtifactFilter.ofPatterns? c.ignoredCallLocations

/-- The variable of the environment that asks for debug output. -/
def debugVariable : String := "DOUBLECHECK_DEBUG"

/-- The values with which the variable asks for debug output, whatever their case. -/
def affirmations : List String := ["1", "y", "yes", "true", "t"]

/-- Whether a value of the variable asks for debug output. -/
def asksForDebug (value : String) : Bool :=
  affirmations.contains (String.ofList ((Text.trim value.toList).map Char.toLower))

/-- Whether debug output is on, given the value of the variable. -/
def showsDebug (c : Configuration) (request : Option String) : Bool :=
  c.debug || request.any asksForDebug

/-- The least severe level that is logged. -/
def effectiveLevel (c : Configuration) (request : Option String) : Severity :=
  if c.showsDebug request then .debug else c.logLevel

/-- Adding implied settings twice is the same as adding them once. -/
theorem normalize_normalize (c : Configuration) : c.normalize.normalize = c.normalize := by
  cases c with
  | mk _ _ _ store _ _ _ _ trace _ auto contracts _ =>
    cases auto <;> cases contracts <;> cases trace <;> cases store <;> rfl

end Configuration

end MockAudit

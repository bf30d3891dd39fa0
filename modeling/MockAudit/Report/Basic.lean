import MockAudit.Call.Basic

/-!
# Reports

A report hands the failures of offenses to those they concern: failures of a test case go to the
test case, all at once, and the others to the suite with their locations. An offense without a
failure is not reported. What is handed over is counted, and the counts alone say whether there was
anything to report.
-/

namespace MockAudit

/-- The counts of what was reported. -/
structure ReportSummary where
  failedTestCases : Nat := 0
  suiteFailures : Nat := 0
deriving DecidableEq

/-- Whether nothing was reported. -/
def ReportSummary.isClean (s : ReportSummary) : Bool :=
  s.failedTestCases == 0 && s.suiteFailures == 0

/-- The failures of test cases, in the order in which the test cases first appear, and the failures
no test case is to blame for. -/
structure Report where
  testCases : List (String × List Failure) := []
  suite : List (Option String × Failure) := []
  summary : ReportSummary := {}

namespace Report

/-- Adds a failure to those of a test case. -/
def blame (testCase : String) (f : Failure) :
    List (String × List Failure) → List (String × List Failure)
  | [] => [(testCase, [f])]
  | (name, failures) :: rest =>
    if name = testCase then (name, failures ++ [f]) :: rest
    else (name, failures) :: blame testCase f rest

/-- Adds an offense. A failure of the suite is counted at once. -/
def add (r : Report) (offense : Call) : Report :=
  match offense.failure, offense.testCase with
  | none, _ => r
  | some f, some testCase => { r with testCases := blame testCase f r.testCases }
  | some f, none =>
    { r with
      suite := r.suite ++ [(offense.location, f)]
      summary.suiteFailures := r.summary.suiteFailures + 1 }

/-- The report on offenses. The test cases that failed are counted in the end. -/
def ofOffenses (offenses : List Call) : Report :=
  let r := offenses.foldl add {}
  { r with summary.failedTestCases := r.testCases.length }

/-- Whether there is nothing to report. -/
def isClean (r : Report) : Bool :=
  r.summary.isClean

end Report

end MockAudit

import MockAudit.Report.Basic
import MockAudit.Text.Lines

/-!
# Reports on a console

Failures of the suite come first, then those of the test cases. Each has a headline, which may be
coloured, and the lines of its wording are indented below it.
-/

namespace MockAudit

/-- The look of a piece of text on a console. -/
inductive Emphasis
  | alarm
  | bold
  | faint

namespace Emphasis

/-- The sequence that ends an emphasis. -/
def reset : List Char := "\x1b[0m".toList

/-- The sequence that begins an emphasis. -/
def start : Emphasis → List Char
  | alarm => "\x1b[1;31m".toList
  | bold => "\x1b[1m".toList
  | faint => "\x1b[2m".toList

/-- Begins the emphasis again after each sequence in a text that ends it. -/
def resume (e : Emphasis) : List Char → List Char
  | '\x1b' :: '[' :: '0' :: 'm' :: cs => reset ++ e.start ++ resume e cs
  | c :: cs => c :: resume e cs
  | [] => []

/-- A text with an emphasis, where colours are shown. -/
def decorate (e : Emphasis) (coloured : Bool) (text : String) : String :=
  if coloured then String.ofList (e.start ++ e.resume text.toList ++ reset) else text

end Emphasis

namespace Report

/-- The wording of a failure, indented below its headline. -/
def body (f : Failure) : String :=
  String.join ((Text.lines f.message).map fun line => "    " ++ line ++ "\n")

/-- What is shown for a failure of the suite. -/
def suiteText (coloured : Bool) (entry : Option String × Failure) : String :=
  Emphasis.alarm.decorate coloured "SUITE FAILURE" ++ " "
    ++ Emphasis.faint.decorate coloured (entry.1.getD "<unknown location>") ++ "\n" ++ body entry.2

/-- What is shown for the failures of a test case. -/
def testCaseText (coloured : Bool) (entry : String × List Failure) : String :=
  Emphasis.alarm.decorate coloured "FAILED" ++ " "
    ++ Emphasis.bold.decorate coloured entry.1 ++ "\n"
    ++ String.join (entry.2.map body)

/-- What is shown on a console. -/
def consoleText (r : Report) (coloured : Bool) : String :=
  String.join (r.suite.map (suiteText coloured))
    ++ String.join (r.testCases.map (testCaseText coloured))

end Report

end MockAudit

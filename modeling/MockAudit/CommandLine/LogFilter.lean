import MockAudit.Log
import MockAudit.Text.Blank
import MockAudit.Text.PatternParser

/-!
# Filters of log lines

Which log lines are shown is set by the configuration and can be changed by directives in the
environment: a level, a name, or a name with a level, separated by commas, and a pattern after a
slash. A directive with a name holds for the parts of a program whose names begin with it, and the
longest name counts.
-/

namespace MockAudit.CommandLine

/-- A rule on the lines that are shown. -/
structure LogDirective where
  /-- The beginning of the names for which the rule holds; without one it holds for all. -/
  name : Option String
  /-- The least severe level that is shown, if any is. -/
  least : Option Severity

/-- Which log lines are shown. -/
structure LogFilter where
  directives : List LogDirective
  /-- A pattern that must be found in a line. -/
  pattern : Option Text.Pattern := none

namespace LogFilter

/-- The name of the program in directives. -/
def programName : String := "doublecheck"

/-- The least severe level that a word sets. -/
def levelOf? (word : String) : Option (Option Severity) :=
  match String.ofList (word.toList.map Char.toLower) with
  | "off" => some none
  | "error" => some (some .error)
  | "warn" => some (some .warn)
  | "info" => some (some .info)
  | "debug" | "trace" => some (some .debug)
  | _ => none

/-- A text without blanks around it. -/
def trimmed (text : String) : String :=
  String.ofList (Text.trim text.toList)

/-- Reads a directive; the error is the part that cannot be read. -/
def readDirective (text : String) : Except String LogDirective :=
  match text.splitOn "=" with
  | [word] =>
    match levelOf? (trimmed word) with
    | some least => .ok ⟨none, least⟩
    | none => .ok ⟨some word, some .debug⟩
  | [name, level] =>
    if trimmed level = "" then .ok ⟨some name, some .debug⟩
    else
      match levelOf? (trimmed level) with
      | some least => .ok ⟨some name, least⟩
      | none => .error (trimmed level)
  | _ => .error text

/-- Sets a rule in place of the one for the same name. -/
def set (directives : List LogDirective) (d : LogDirective) : List LogDirective :=
  directives.filter (·.name != d.name) ++ [d]

/-- The warning about a part that cannot be read. -/
def warning (part : String) : String :=
  "warning: invalid logging spec '" ++ part ++ "', ignoring it"

/-- Adds the directives of a text to a filter; the answer has the warnings about what cannot be
read. -/
def readDirectives (f : LogFilter) (text : String) : LogFilter × List String :=
  let parts := ((text.splitOn ",").map trimmed).filter (· != "")
  parts.foldl (fun (f, warnings) part =>
    match readDirective part with
    | .ok d => ({ f with directives := set f.directives d }, warnings)
    | .error wrong => (f, warnings ++ [warning wrong])) (f, [])

/-- The filter that shows the lines from a level on, changed by the directives in the
environment. -/
def make (least : Severity) (directives : Option String) : LogFilter × List String :=
  let base : LogFilter := { directives := [⟨none, some least⟩] }
  match directives.map (·.splitOn "/") with
  | none | some [] => (base, [])
  | some [rules] => base.readDirectives rules
  | some [rules, pattern] =>
    let (f, warnings) := base.readDirectives rules
    ({ f with pattern := Text.Pattern.parse? pattern }, warnings)
  | some parts =>
    (base, ["warning: invalid logging spec '" ++ String.intercalate "/" parts
      ++ "' (too many '/'s), ignoring it"])

/-- The rule that holds for the lines of the program. -/
def ruling (f : LogFilter) : Option LogDirective :=
  (f.directives.filter fun d => d.name.all (programName.startsWith ·)).foldl (fun best d =>
    match best with
    | none => some d
    | some b => if (b.name.getD "").utf8ByteSize ≤ (d.name.getD "").utf8ByteSize then some d
      else some b) none

/-- Whether a line is shown. -/
def shows (f : LogFilter) (line : LogLine) : Bool :=
  ((f.ruling.bind (·.least)).any fun least => least.rank ≤ line.level.rank)
    && f.pattern.all (·.isFoundIn line.message)

/-- The text of the lines that are shown. -/
def render (f : LogFilter) (lines : List LogLine) : String :=
  String.join ((lines.filter f.shows).map fun line => line.text ++ "\n")

end LogFilter

end MockAudit.CommandLine

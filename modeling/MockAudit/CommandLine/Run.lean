import MockAudit.Command.CheckSignatures
import MockAudit.Command.Infer
import MockAudit.Command.Init
import MockAudit.Command.Verify
import MockAudit.CommandLine.Basic
import MockAudit.CommandLine.LogFilter
import MockAudit.Report.Console

/-!
# Running the program

What the program writes and how it ends, as a function of its command line, the files and the
environment. It ends with zero if there is nothing to complain of, with one if there are offenses,
and with two if a command fails.
-/

namespace MockAudit.CommandLine

/-- What the program learns from its environment. -/
structure Surroundings where
  /-- The working directory. -/
  directory : String
  /-- The variable that asks for debug output. -/
  debug : Option String := none
  /-- The variable that names a configuration file. -/
  configuration : Option String := none
  /-- The variable with directives on the log. -/
  log : Option String := none
  /-- Whether colours are shown unless the configuration fixes it. -/
  coloured : Bool := false

/-- How a run ends. -/
structure RunResult where
  exitCode : Nat
  output : String := ""
  errors : String := ""
  /-- The file that is written. -/
  written : Option FileWrite := none

/-- The version of the program. -/
def versionText : String := "doublecheck 0.1.0\n"

/-- The help page. -/
def helpText : String :=
  String.intercalate "\n"
    ["Verifies that test doubles behave like the real methods they replace",
      "",
      "Usage: doublecheck [OPTIONS] <COMMAND>",
      "",
      "Commands:",
      "  infer       Infer method signatures from recorded real calls",
      "  verify      Verify recorded mocked calls against recorded real calls",
      "  check-sigs  Validate the signature files in a directory",
      "  init        Initialize a .doublecheck.toml configuration file",
      "  help        Print this message or the help of the given subcommand(s)",
      "",
      "Options:",
      "      --config <CONFIG>  Configuration file (defaults to the nearest .doublecheck.toml) "
        ++ "[env: DOUBLECHECK_CONFIG=]",
      "  -h, --help             Print help",
      "  -V, --version          Print version",
      ""]

/-- The wording of a refusal. -/
def UsageFault.message : UsageFault → String
  | help | nothingGiven => helpText
  | version => versionText
  | missingCommand => "error: 'doublecheck' requires a subcommand but one was not provided\n"
  | unknownCommand => "error: unrecognized subcommand\n"
  | unknownArgument => "error: unexpected argument found\n"
  | invalidValue => "error: invalid or missing value for an argument\n"
  | unneededValue => "error: unexpected value for an argument\n"
  | repeatedOption => "error: an argument cannot be used multiple times\n"
  | missingOption => "error: the following required arguments were not provided\n"

/-- How a run ends whose command line is not followed. -/
def refuse (fault : UsageFault) : RunResult :=
  match fault with
  | .help | .version => { exitCode := 0, output := fault.message }
  | _ => { exitCode := 2, errors := fault.message }

/-- How a run ends whose command fails. -/
def abort (e : CommandError) : RunResult :=
  { exitCode := match e with
      | .step (.callFault _) => 101
      | _ => 2
    errors := "Error: " ++ e.explanation ++ "\n" }

/-- Reads the configuration that is asked for, or that of the working directory. -/
def loadConfiguration (files : Files) (s : Surroundings) (i : Invocation) :
    Except Error Configuration :=
  match i.configuration with
  | some path => (Configuration.load files path).value
  | none => .ok (Configuration.find files s.directory).value

/-- Runs a command; the answer is how it ends, apart from the lines it logs. -/
def Job.run (files : Files) (c : Configuration) (coloured : Bool) :
    Job → Logged (Except CommandError RunResult)
  | .infer calls format => do
    return (← Command.infer files calls format).mapError .step |>.map fun listing =>
      { exitCode := 0
        output := String.ofList (Text.trimEnd listing.toList) ++ "\n" }
  | .verify real mocks typeCheck signatureDirs noContracts => do
    let report ← Command.verify files
      { real, mocks, typeCheck, signatureDirs, contracts := !noContracts
        raiseOnMissing := c.raiseOnMissingAutoTypes }
    return report.mapError .step |>.map fun report =>
      { exitCode := if report.isClean then 0 else 1
        errors := report.consoleText coloured }
  | .checkSignatures directory => do
    return (← Command.checkSignatures files directory).map fun count =>
      { exitCode := 0
        output := toString count ++ " signature(s) in " ++ directory ++ " are valid\n" }
  | .init force =>
    return (Command.init files "." force).map fun w =>
      { exitCode := 0
        output := "Created " ++ Configuration.fileName ++ " configuration file\n"
        written := some w }

/-- Follows a command line with the configuration that holds. -/
def follow (files : Files) (s : Surroundings) (job : Job) (c : Configuration) :
    RunResult :=
  let (filter, warnings) := LogFilter.make (c.effectiveLevel s.debug) s.log
  let result := job.run files c (c.color.getD s.coloured)
  let last := match result.value with
    | .ok r => r
    | .error e => abort e
  { last with
    errors := String.join (warnings.map (· ++ "\n")) ++ filter.render result.lines ++ last.errors }

/-- Runs the program. -/
def run (files : Files) (s : Surroundings) (words : List String) : RunResult :=
  match parse words s.configuration with
  | .error fault => refuse fault
  | .ok i =>
    match loadConfiguration files s i with
    | .error e => abort (.step e)
    | .ok c => follow files s i.job c

end MockAudit.CommandLine

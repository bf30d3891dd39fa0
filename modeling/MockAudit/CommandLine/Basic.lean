import MockAudit.CommandLine.Option
import MockAudit.Signature.Listing

/-!
# The command line

A command line names a command with its options and may name a configuration file, before or after
the command. A configuration file may also be named by a variable of the environment.
-/

namespace MockAudit.CommandLine

/-- A command with its options. -/
inductive Job
  | infer (calls : String) (format : ListingFormat)
  | verify (real mocks : String) (typeCheck : Bool) (signatureDirs : List String)
      (noContracts : Bool)
  | checkSignatures (directory : String)
  | init (force : Bool)

/-- The files a command reads, and the directories whose files it reads. -/
def Job.sources : Job → List String
  | infer calls _ => [calls]
  | verify real mocks _ signatureDirs _ => real :: mocks :: signatureDirs
  | checkSignatures directory => [directory]
  | init _ => []

/-- A command line that can be followed. -/
structure Invocation where
  /-- The configuration file asked for. -/
  configuration : Option String
  job : Job

/-- Paths are not empty. -/
def isPath (value : String) : Bool :=
  !value.isEmpty

/-- The option that asks for help. -/
def helpOption : OptionSpec := { name := "help", letter := some 'h', form := .request .help }

/-- The option that names a configuration file. -/
def configurationOption : OptionSpec := { name := "config", form := .value isPath }

/-- The commands with the options of their own, the required ones first. -/
inductive CommandName
  | infer
  | verify
  | checkSignatures
  | init
deriving DecidableEq

namespace CommandName

/-- The word for a command. -/
def text : CommandName → String
  | infer => "infer"
  | verify => "verify"
  | checkSignatures => "check-sigs"
  | init => "init"

/-- All commands. -/
def all : List CommandName := [infer, verify, checkSignatures, init]

/-- The command with a name. -/
def ofText? (name : String) : Option CommandName :=
  all.find? (·.text == name)

/-- The options a command needs. -/
def required : CommandName → List OptionSpec
  | infer => [{ name := "calls", form := .value isPath }]
  | verify =>
    [{ name := "real", form := .value isPath }, { name := "mocks", form := .value isPath }]
  | checkSignatures => [{ name := "dir", form := .value isPath }]
  | init => []

/-- The options a command may be given. -/
def optional : CommandName → List OptionSpec
  | infer =>
    [{ name := "format", letter := some 'f'
       form := .value fun v => (ListingFormat.ofName? v).isSome }]
  | verify =>
    [{ name := "type-check", form := .flag }, { name := "sig-dir", form := .values isPath },
      { name := "no-contracts", form := .flag }]
  | checkSignatures => []
  | init => [{ name := "force", letter := some 'f', form := .flag }]

/-- All options on the level of a command. -/
def specs (name : CommandName) : List OptionSpec :=
  name.required ++ name.optional ++ [configurationOption, helpOption]

/-- The command that was read. -/
def build (name : CommandName) (r : Reading) : Except UsageFault Job :=
  let required (option : String) : Except UsageFault String :=
    match r.value? option with
    | some v => .ok v
    | none => .error .missingOption
  match name with
  | infer => do
    return .infer (← required "calls")
      (((r.value? "format").bind ListingFormat.ofName?).getD .toml)
  | verify => do
    return .verify (← required "real") (← required "mocks") (r.has "type-check")
      (r.valuesOf "sig-dir") (r.has "no-contracts")
  | checkSignatures => do return .checkSignatures (← required "dir")
  | init => return .init (r.has "force")

end CommandName

/-- The name of the command that shows help. -/
def helpCommand : String := "help"

/-- The options in front of the command. -/
def topSpecs : List OptionSpec :=
  [configurationOption, helpOption,
    { name := "version", letter := some 'V', form := .request .version }]

/-- Whether a word is a command. -/
def isCommand (word : String) : Bool :=
  word == helpCommand || (CommandName.ofText? word).isSome

/-- Judges a word where a command is expected: after two dashes not even a command is one. -/
def strayTop (afterDashes : Bool) (word : String) : UsageFault :=
  if afterDashes && isCommand word then .unknownArgument else .unknownCommand

/-- Follows a request for help about the words after it. -/
def askHelp : List String → UsageFault
  | [] => .help
  | [word] => if isCommand word then .help else .unknownCommand
  | _ :: _ :: _ => .unknownCommand

/-- Completes a level of the command line: the last option is settled, and the variable of the
environment stands for a configuration file that is not named here. -/
def complete (r : Reading) (fallback : Option String) :
    Except UsageFault (Reading × Option String) := do
  let r ← r.settlePending
  match r.value? "config" with
  | some path => return (r, some path)
  | none =>
    match fallback with
    | some path => if isPath path then return (r, none) else throw .invalidValue
    | none => return (r, none)

/-- Reads the words after a command. -/
def readCommand (name : CommandName) (words : List String) (fallback : Option String) :
    Except UsageFault (Job × Option String) := do
  let (r, _) ← readWords name.specs (fun _ => false) (fun _ _ => .unknownArgument) {} words
  let (r, path) ← complete r fallback
  return (← name.build r, path)

/-- Reads a command line without the name of the program. `fallback` is the variable of the
environment that names a configuration file. -/
def parse (words : List String) (fallback : Option String) :
    Except UsageFault Invocation := do
  match ← readWords topSpecs isCommand strayTop {} words with
  | (r, none) =>
    let (r, _) ← complete r fallback
    throw (if r.given.isEmpty && fallback.isNone then .nothingGiven else .missingCommand)
  | (r, some (word, rest)) =>
    match CommandName.ofText? word with
    | none => throw (askHelp rest)
    | some name =>
      let (job, inner) ← readCommand name rest fallback
      let (_, outer) ← complete r fallback
      return { configuration := (inner.or outer).or fallback, job }

end MockAudit.CommandLine

import MockAudit.Configuration.Basic
import MockAudit.Files.Basic
import MockAudit.Toml.Reader

/-!
# Configuration files

A configuration file gives settings by name; those it leaves out keep their defaults, and names it
does not know are ignored. The file is looked for in a directory and in those around it, while a
file that is asked for by name must be readable.
-/

namespace MockAudit.Configuration

/-- The name of configuration files. -/
def fileName : String := ".doublecheck.toml"

/-- Reads a setting, which may be left out. -/
def setting? {α : Type} (entries : List (String × Toml)) (name : String) (default : α)
    (read : Toml → Option α) : Option α :=
  match Toml.lookup? name entries with
  | none => some default
  | some v => read v

/-- The log level with a name. -/
def levelNamed? (name : String) : Option Severity :=
  Severity.all.find? (·.name == name)

/-- Reads a log level: its name, or a table whose only entry has that name and is empty. -/
def levelOfToml? : Toml → Option Severity
  | .string name => levelNamed? name
  | .table [(name, .table [])] | .table [(name, .array [])] => levelNamed? name
  | _ => none

/-- Reads a list of texts. -/
def textsOfToml? (v : Toml) : Option (List String) := do
  (← v.array?).mapM Toml.string?

/-- Reads settings. -/
def ofEntries? (entries : List (String × Toml)) : Option Configuration := do
  let base : Configuration := {}
  return {
    debug := ← setting? entries "debug" base.debug Toml.bool?
    logLevel := ← setting? entries "log_level" base.logLevel levelOfToml?
    color := ← setting? entries "color" base.color fun v => v.bool?.map some
    storeMockedCalls := ← setting? entries "store_mocked_calls" base.storeMockedCalls Toml.bool?
    typeCheck := ← setting? entries "type_check" base.typeCheck fun v => do
      (CheckerKind.ofName (← v.string?)).toOption.map some
    signatureDirs := ← setting? entries "signature_load_dirs" base.signatureDirs textsOfToml?
    raiseOnMissingTypes :=
      ← setting? entries "raise_on_missing_types" base.raiseOnMissingTypes Toml.bool?
    raiseOnMissingAutoTypes :=
      ← setting? entries "raise_on_missing_auto_types" base.raiseOnMissingAutoTypes Toml.bool?
    traceRealCalls := ← setting? entries "trace_real_calls" base.traceRealCalls Toml.bool?
    traceVia := ← setting? entries "trace_real_calls_via" base.traceVia fun v => do
      (Strategy.ofName (← v.string?)).toOption
    autoTypeCheck := ← setting? entries "auto_type_check" base.autoTypeCheck Toml.bool?
    verifyMockContracts :=
      ← setting? entries "verify_mock_contracts" base.verifyMockContracts Toml.bool?
    ignoredCallLocations :=
      ← setting? entries "ignored_call_locations" base.ignoredCallLocations textsOfToml? }

/-- Reads the text of a configuration file and adds implied settings. Patterns that cannot be read
are refused. -/
def parse (text : String) : Logged (Except ConfigurationFault Configuration) :=
  match (Toml.parse? text).bind ofEntries? with
  | none => return .error .unreadable
  | some c => do
    let c := c.normalize
    if c.filter?.isNone then
      return .error .invalidPattern
    if c.autoTypeCheck && c.typeCheck.isNone then
      Logged.line (.warn "auto_type_check is enabled but no type_check backend is configured")
    return .ok c

/-- What is logged of a configuration file that is not in order. -/
def refusalLine (fault : ConfigurationFault) : LogLine :=
  { level := .warn, message := fault.message, ending := ". Using defaults." }

/-- Reads a configuration file if it is there and in order. -/
def tryLoad (files : Files) (path : String) : Logged (Option Configuration) :=
  match files.read path with
  | .error .notFound => return none
  | .error fault => do
    Logged.line (.warn ("Failed to read config file " ++ path ++ ": " ++ fault.message))
    return none
  | .ok text => do
    match ← parse text with
    | .ok c =>
      Logged.line (.debug ("Loaded config from " ++ path))
      return some c
    | .error fault =>
      Logged.line (refusalLine fault)
      return none

/-- The greatest number of directories in which a configuration file is looked for. -/
def maxDirectories : Nat := 10

/-- The places where a configuration file for a directory is looked for. -/
def candidates (start : String) : List String :=
  (Path.ancestors start maxDirectories).map (Path.join · fileName)

/-- The first configuration file that is there and in order, among several places. -/
def findAt (files : Files) : List String → Logged (Option Configuration)
  | [] => return none
  | path :: others => do
    match ← tryLoad files path with
    | some c => return some c
    | none => findAt files others

/-- The configuration that holds in a directory: that of the innermost file around it, or else the
defaults. -/
def find (files : Files) (start : String) : Logged Configuration := do
  match ← findAt files (candidates start) with
  | some c => return c
  | none =>
    Logged.line (.debug ("No config found after checking " ++ toString maxDirectories
      ++ " directories. Using default config."))
    return {}

/-- Reads a configuration file asked for by name. -/
def load (files : Files) (path : String) : Logged (Except Error Configuration) :=
  match files.read path with
  | .error fault => return .error (.fileSystem "Cannot read config file" fault)
  | .ok text => do return (← parse text).mapError .configuration

end MockAudit.Configuration

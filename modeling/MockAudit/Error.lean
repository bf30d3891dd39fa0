import MockAudit.Call.Basic
import MockAudit.Phase
import MockAudit.Signature.TypeParser

/-!
# Errors that end a step

Failures of a run itself, as opposed to those found in single calls.

The readers of data formats and of patterns explain in words of their own why they refuse a text.
These words are left out: the wording of an error that cites them stops in front of them, and the
wording of an error that consists of them is empty.
-/

namespace MockAudit

/-- What is wrong with a configuration. -/
inductive ConfigurationFault
  | unknownChecker (name : String)
  | unknownStrategy (name : String)
  | noChecker
  /-- The text of a configuration file is not what is expected of one. The words of the reader
  follow. -/
  | unreadable
  /-- A location pattern cannot be read. The words of the reader follow. -/
  | invalidPattern

/-- The wording of a fault of a configuration. -/
def ConfigurationFault.message : ConfigurationFault → String
  | unknownChecker name =>
    "Unsupported type checker: " ++ name ++ ". Supported: signatures,annotations"
  | unknownStrategy name => "Unknown tracing strategy: " ++ name ++ ". Supported: wrap,events"
  | noChecker => "No type checker configured"
  | unreadable => "Failed to parse .doublecheck.toml: "
  | invalidPattern => "Invalid ignored_call_locations: "

/-- Why a file cannot be read or written. -/
inductive FileFault
  | notFound
  | isDirectory
  | notDirectory
  | notPermitted
  /-- The content of the file is no text. -/
  | notText
  /-- Anything else, as the operating system tells it. -/
  | other (description : String)
deriving DecidableEq

/-- The wording of a fault of the file system. -/
def FileFault.message : FileFault → String
  | notFound => "No such file or directory (os error 2)"
  | isDirectory => "Is a directory (os error 21)"
  | notDirectory => "Not a directory (os error 20)"
  | notPermitted => "Permission denied (os error 13)"
  | notText => "stream did not contain valid UTF-8"
  | other description => description

/-- Why a step of an audit cannot be done. -/
inductive Error
  | configuration (fault : ConfigurationFault)
  | tracerAlreadyStarted
  | phase (now next : Phase)
  | signature (fault : SignatureFault) (source : Option String)
  | alreadyCompleted (method : String)
  | invalidRecordedMethod (reference : String)
  | fileSystem (task : String) (fault : FileFault)
  /-- The text that the context names cannot be read. The words of the reader follow. -/
  | withContext (context : String)
  /-- The words of the reader of JSON. -/
  | json
  /-- The words of the reader of TOML. -/
  | toml
  /-- The words of the reader of patterns. -/
  | pattern
  | callFault (fault : Fault)

/-- The wording of an error. -/
def Error.message : Error → String
  | configuration fault => "Configuration error: " ++ fault.message
  | tracerAlreadyStarted => "Tracer error: tracer already started"
  | phase now next => "Cannot enter phase " ++ next.name ++ " from " ++ now.name
  | signature fault source =>
    "Signature error in " ++ source.getD "<inline>" ++ ": " ++ fault.message
  | alreadyCompleted method => "Return value already recorded for " ++ method
  | invalidRecordedMethod reference =>
    "Recording error: invalid method reference `" ++ reference
      ++ "`, expected Type#method or Type.method"
  | fileSystem task _ => "File system error: " ++ task
  | withContext context => context
  | json | toml | pattern => ""
  | callFault .namedFlagWithoutArguments => "named flag set without arguments"

end MockAudit

import MockAudit.Error

/-!
# Failures of commands

A command fails because a step of an audit fails, or for a reason of its own. The failure is told
in one line, with what caused it.
-/

namespace MockAudit

/-- Why a command fails. -/
inductive CommandError
  | step (e : Error)
  | noSignatureDirectory (directory : String)
  | configurationExists
  | configurationNotWritten (path : String) (fault : FileFault)

namespace CommandError

/-- The wording of a failure. -/
def message : CommandError → String
  | step e => e.message
  | noSignatureDirectory directory => "Signature directory " ++ directory ++ " does not exist"
  | configurationExists => "Configuration file already exists. Use --force to overwrite."
  | configurationNotWritten path _ => "Failed to write " ++ path

/-- The fault of the file system behind a failure. -/
def cause? : CommandError → Option FileFault
  | step (.fileSystem _ fault) => some fault
  | configurationNotWritten _ fault => some fault
  | _ => none

/-- The wording of a failure with what caused it. -/
def explanation (e : CommandError) : String :=
  String.intercalate ": " (e.message :: (e.cause?.map FileFault.message).toList)

end CommandError

end MockAudit

import MockAudit.Checker.Loading
import MockAudit.Command.Basic

/-!
# Checking a directory of signature files
-/

namespace MockAudit.Command

/-- Reads all signature files in a directory; the answer is the number of methods declared. -/
def checkSignatures (files : Files) (directory : String) : Logged (Except CommandError Nat) :=
  if !files.isDirectory directory then return .error (.noSignatureDirectory directory)
  else do
    let env := Catalog.empty.environment
    let (_, result) ← Declarations.loadDirectories {} files env [directory]
    return result.mapError .step

end MockAudit.Command

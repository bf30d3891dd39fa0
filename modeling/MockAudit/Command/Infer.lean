import MockAudit.Log
import MockAudit.Recording.File
import MockAudit.Signature.Listing

/-!
# Inferring signatures from a recording
-/

namespace MockAudit.Command

/-- Lists the signatures inferred from the calls of a recording. -/
def infer (files : Files) (path : String) (format : ListingFormat) :
    Logged (Except Error String) :=
  let found : Except Error (Recording × Nat × List UsageProfile) := do
    let recording ← Recording.load files path
    let (calls, _) ← recording.restoreCalls Heap.empty
    let signatures ← (Inference.infer calls).mapError .callFault
    return (recording, calls.length, signatures)
  match found with
  | .error e => return .error e
  | .ok (recording, count, signatures) => do
    Logged.line (.info ("Inferred " ++ toString signatures.length ++ " signature(s) from "
      ++ toString count ++ " call(s)"))
    return .ok (format.render signatures recording.catalog)

end MockAudit.Command

import MockAudit.Command.Basic
import MockAudit.Configuration.File

/-!
# Starting with a configuration file
-/

namespace MockAudit.Command

/-- The configuration file to start with. -/
def initialConfiguration : String :=
  String.intercalate "\n"
    ["# doublecheck configuration",
      "",
      "# Log level: debug, info, warn, error",
      "log_level = \"info\"",
      "",
      "# Trace real calls of mocked methods (\"wrap\" or \"events\")",
      "trace_real_calls = false",
      "trace_real_calls_via = \"wrap\"",
      "",
      "# Verify stubs against traced real calls (implies trace_real_calls)",
      "verify_mock_contracts = false",
      "",
      "# Type-check mocked calls against signatures inferred from real calls",
      "# (implies trace_real_calls and store_mocked_calls; needs type_check)",
      "auto_type_check = false",
      "# type_check = \"signatures\"",
      "signature_load_dirs = [\"sig\"]",
      "raise_on_missing_types = false",
      "raise_on_missing_auto_types = true",
      "",
      "# Regexes of call locations the tracer ignores",
      "ignored_call_locations = []",
      ""]

/-- Writes the configuration file to start with into a directory. A file that is there is replaced
only if `force` is set. -/
def init (files : Files) (directory : String) (force : Bool) : Except CommandError FileWrite :=
  let path := Path.join directory Configuration.fileName
  if files.exists? path && !force then .error .configurationExists
  else (files.write path initialConfiguration).mapError (.configurationNotWritten path)

end MockAudit.Command

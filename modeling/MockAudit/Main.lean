import MockAudit.CommandLine.Run

/-!
# The program

Everything the command line asks for is read first; then what the run writes is written.
-/

namespace MockAudit.CommandLine

/-- The fault of the file system that an error tells of. -/
def faultOf : IO.Error → FileFault
  | .noFileOrDirectory _ _ _ | .noSuchThing _ _ _ => .notFound
  -- The codes of failures to open a file are negative, those of failures to read it are positive.
  | .inappropriateType _ code _ => if code = 20 ∨ code = -20 then .notDirectory else .isDirectory
  | .permissionDenied _ _ _ => .notPermitted
  -- The only fault in reading that does not come from the file system is that of the decoder.
  | .userError _ => .notText
  | e => .other (toString e)

/-- The answer of an action, or why it fails. -/
def attempt {α : Type} (action : IO α) : IO (Except FileFault α) := do
  return (← action.toBaseIO).mapError faultOf

/-- Looks what is found under a path. -/
def lookAt (path : String) : IO FileNode := do
  let place := (← IO.currentDir) / path
  if ← place.isDir then
    return .directory (← attempt do return (← place.readDir).toList.map (·.fileName))
  match ← attempt (IO.FS.readFile path), ← place.pathExists with
  | .error fault, false => return .absent fault
  | content, _ => return .file content

/-- Looks what is found under a path and, if that is a directory, under the signature files in
it. -/
def lookInto (path : String) : IO (List (String × FileNode)) := do
  let node ← lookAt path
  match node with
  | .directory (.ok names) =>
    let inside := (names.filter Path.isTomlName).map (Path.join path)
    return (path, node) :: (← inside.mapM fun p => return (p, ← lookAt p))
  | _ => return [(path, node)]

/-- The view of what was found under some paths. -/
def viewOf (found : List (String × FileNode)) : Files :=
  let look (path : String) : FileNode :=
    ((found.find? (·.1 == path)).map (·.2)).getD (.absent .notFound)
  { look
    writeFault? := fun path =>
      match look path with
      | .directory _ => some .isDirectory
      | _ => none }

/-- The paths that a run looks at. -/
def pathsFor (s : Surroundings) (words : List String) : List String :=
  match parse words s.configuration with
  | .error _ => []
  | .ok i =>
    let configurations := match i.configuration with
      | some path => [path]
      | none => Configuration.candidates s.directory
    configurations ++ i.job.sources ++ [Path.join "." Configuration.fileName]

/-- Writes the file of a run, if there is one. -/
def writeFile (r : RunResult) : IO RunResult := do
  match r.written with
  | none => return r
  | some w =>
    try
      IO.FS.writeFile w.path w.content
      return r
    catch e =>
      return abort (.configurationNotWritten w.path (faultOf e))

end MockAudit.CommandLine

open MockAudit.CommandLine in
/-- Runs the program. -/
def main (words : List String) : IO UInt32 := do
  let stderr ← IO.getStderr
  let plain := (← IO.getEnv "NO_COLOR").isSome
  let surroundings : Surroundings :=
    { directory := toString (← IO.currentDir)
      debug := ← IO.getEnv MockAudit.Configuration.debugVariable
      configuration := ← IO.getEnv "DOUBLECHECK_CONFIG"
      log := ← IO.getEnv "DOUBLECHECK_LOG"
      coloured := !plain && (← stderr.isTty) }
  let found ← (pathsFor surroundings words).mapM lookInto
  let result ← writeFile (run (viewOf found.flatten) surroundings words)
  IO.print result.output
  IO.eprint result.errors
  return UInt32.ofNat result.exitCode

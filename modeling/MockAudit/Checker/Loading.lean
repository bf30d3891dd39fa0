import MockAudit.Checker.Basic
import MockAudit.Files.Basic
import MockAudit.Signature.File

/-!
# Loading declarations

The declarations of a signature file become known one after the other: first its types, then its
methods up to the first that cannot be read. The files of a directory are loaded in the order of
their names, up to the first that fails.
-/

namespace MockAudit

namespace Declarations

/-- Reads one declared method. -/
def readMethod (entry : String × String) : Except SignatureFault (MethodRef × Signature) :=
  match MethodRef.parse? entry.1 with
  | none => .error (.invalidReference entry.1)
  | some key =>
    match Signature.parse entry.2 with
    | .ok s => .ok (key, s)
    | .error fault => .error (.ofMethod entry.1 fault)

/-- Reads declared methods up to the first that cannot be read. Each comes with its reference as
written. -/
def readMethods : List (String × String) →
    List (String × MethodRef × Signature) × Option SignatureFault
  | [] => ([], none)
  | entry :: rest =>
    match readMethod entry with
    | .error fault => ([], some fault)
    | .ok (key, s) =>
      let (others, fault) := readMethods rest
      ((entry.1, key, s) :: others, fault)

/-- Makes declared types known. -/
def declareTypes (d : Declarations) (types : List (TypeName × Option TypeName)) :
    Declarations :=
  types.foldl (fun d (name, superclass) =>
    { d with types := fun t => if t = name then some superclass else d.types t }) d

/-- The lines logged for the unknown types in a declared signature. -/
def unknownTypeLines (d : Declarations) (env : Environment) (reference : String)
    (s : Signature) : List LogLine :=
  (s.references.filter (!d.knows env ·)).map fun t =>
    .warn ("Unknown type `" ++ t ++ "` referenced by " ++ reference)

/-- The result of loading: what is known afterwards, and the number of methods read or what went
wrong. -/
abbrev LoadResult := Declarations × Except Error Nat

/-- Loads from several sources, one after the other, up to the first that fails. -/
def loadEach (load : Declarations → String → Logged LoadResult) (d : Declarations) :
    List String → Logged LoadResult
  | [] => return (d, .ok 0)
  | source :: sources => do
    match ← load d source with
    | (d, .error e) => return (d, .error e)
    | (d, .ok count) =>
      let (d, result) ← loadEach load d sources
      return (d, result.map (count + ·))

/-- Loads a signature file from its text. -/
def loadText (d : Declarations) (env : Environment) (text source : String) :
    Logged LoadResult :=
  match DeclarationFile.parse? text with
  | none =>
    return (d, .error (.withContext ("Failed to parse signature file " ++ source)))
  | some file => do
    let d := d.declareTypes file.types
    let (methods, fault) := readMethods file.methods
    Logged.write (methods.flatMap fun (reference, _, s) => d.unknownTypeLines env reference s)
    let d := methods.foldl (fun d (_, key, s) => d.declare key s) d
    return (d, match fault with
      | none => .ok file.methods.length
      | some fault => .error (.signature fault (some source)))

/-- Loads a signature file. -/
def loadFile (d : Declarations) (files : Files) (env : Environment) (path : String) :
    Logged LoadResult :=
  match files.read path with
  | .error fault => return (d, .error (.fileSystem ("Cannot read signature file " ++ path) fault))
  | .ok text => d.loadText env text path

/-- Loads the signature files in a directory. A directory that does not exist is skipped, one that
cannot be listed is an error. -/
def loadDirectory (d : Declarations) (files : Files) (env : Environment) (directory : String) :
    Logged LoadResult :=
  match files.look directory with
  | .directory (.ok names) =>
    let paths := ((names.filter Path.isTomlName).mergeSort).map (Path.join directory)
    loadEach (fun d path => d.loadFile files env path) d paths
  | .directory (.error fault) =>
    return (d, .error (.fileSystem ("Cannot read signature dir " ++ directory) fault))
  | _ => do
    Logged.line (.debug ("Signature dir " ++ directory ++ " does not exist, skipping"))
    return (d, .ok 0)

/-- Loads the signature files in several directories. -/
def loadDirectories (d : Declarations) (files : Files) (env : Environment)
    (directories : List String) : Logged LoadResult :=
  loadEach (fun d directory => d.loadDirectory files env directory) d directories

end Declarations

namespace Checker

/-- A checker of a kind, with the declarations found in the given directories. -/
def build (files : Files) (kind : CheckerKind) (env : Environment) (directories : List String) :
    Logged (Except Error Checker) :=
  match kind with
  | .annotations => return .ok (fresh .annotations)
  | .signatures => do
    match ← Declarations.loadDirectories {} files env directories with
    | (_, .error e) => return .error e
    | (d, .ok count) =>
      Logged.line (.debug ("Loaded " ++ toString count ++ " declared signature(s) from "
        ++ toString directories.length ++ " dir(s)"))
      return .ok (.signatures d)

end Checker

end MockAudit

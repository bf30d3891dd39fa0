import MockAudit.Catalog
import MockAudit.Signature.Inference
import MockAudit.Toml.Reader
import MockAudit.Toml.Writer

/-!
# Signature files

A signature file declares types with their superclasses and methods with their signatures. What is
inferred from real calls is written in the same form, so that it can be read back.
-/

namespace MockAudit

/-- What a signature file declares. -/
structure DeclarationFile where
  /-- The types and their superclasses. -/
  types : List (TypeName × Option TypeName)
  /-- References to methods and the texts of their signatures. -/
  methods : List (String × String)

namespace DeclarationFile

/-- Reads the declaration of a type. A list gives the fields in order. -/
def typeOfToml? : Toml → Option (TypeName × Option TypeName)
  | .table entries => do
    let name ← (← Toml.lookup? "name" entries).string?
    match Toml.lookup? "superclass" entries with
    | none => return (name, none)
    | some superclass => return (name, some (← superclass.string?))
  | .array (name :: superclass :: _) => do return (← name.string?, some (← superclass.string?))
  | _ => none

/-- Reads the declaration of a method. A list gives the fields in order. -/
def methodOfToml? : Toml → Option (String × String)
  | .table entries => do
    return (← (← Toml.lookup? "method" entries).string?,
      ← (← Toml.lookup? "signature" entries).string?)
  | .array (method :: signature :: _) => do return (← method.string?, ← signature.string?)
  | _ => none

/-- Reads a list of declarations, which may be left out. -/
def listOfToml? {α : Type} (read : Toml → Option α) : Option Toml → Option (List α)
  | none => some []
  | some v => do (← v.array?).mapM read

/-- Reads a signature file. -/
def parse? (text : String) : Option DeclarationFile := do
  let entries ← Toml.parse? text
  return {
    types := ← listOfToml? typeOfToml? (Toml.lookup? "types" entries)
    methods := ← listOfToml? methodOfToml? (Toml.lookup? "methods" entries) }

/-- A line that gives a key a text. -/
def assignment (key value : String) : List Char :=
  key.toList ++ " = ".toList ++ Toml.writeString value ++ ['\n']

/-- The lines that declare a type. -/
def typeLines (entry : TypeName × Option TypeName) : List Char :=
  "[[types]]\n".toList ++ assignment "name" entry.1
    ++ (match entry.2 with
      | some superclass => assignment "superclass" superclass
      | none => [])

/-- The lines that declare a method. -/
def methodLines (entry : String × String) : List Char :=
  "[[methods]]\n".toList ++ assignment "method" entry.1 ++ assignment "signature" entry.2

/-- Writes a signature file: first the lists that are empty, then a block for each declaration. -/
def write (file : DeclarationFile) : String :=
  let empty := (if file.types.isEmpty then "types = []\n".toList else [])
    ++ (if file.methods.isEmpty then "methods = []\n".toList else [])
  let blocks := (if empty.isEmpty then [] else [empty])
    ++ file.types.map typeLines ++ file.methods.map methodLines
  String.ofList (List.intercalate ['\n'] blocks)

/-- The declarations of inferred signatures. Types are listed with the superclasses the catalog
knows. -/
def ofInferred (signatures : List UsageProfile) (catalog : Catalog) : DeclarationFile :=
  { types := (Inference.customTypes signatures).map fun t =>
      (t, (catalog.find? t).bind (·.superclass))
    methods := signatures.map fun s => (s.describe, s.toSignature.text) }

end DeclarationFile

end MockAudit

import MockAudit.Files.Basic
import MockAudit.Recording.Basic
import MockAudit.Recording.Format

/-!
# Recordings in files

A recording is written as a document with its types and its calls. What is missing in a call is
left out, and what a document does not give is missing; only the method of a call and the name of
a type must be there.
-/

namespace MockAudit

open Json

namespace TypeSnapshot

/-- The data of a recorded type. -/
def toJson (t : TypeSnapshot) : Json :=
  .object (("name", .string t.name) :: member "superclass" .string t.superclass)

/-- Reads a recorded type. -/
def ofJson? (j : Json) : Option TypeSnapshot := do
  match ← structure? ["name", "superclass"] j with
  | [some name, superclass] => return ⟨← text? name, ← optional? text? superclass⟩
  | _ => none

end TypeSnapshot

namespace CallSnapshot

/-- The data of a recorded call. -/
def toJson (r : CallSnapshot) : Json :=
  .object ([("method", .string r.method), ("arguments", .array (Snapshot.itemsToJson r.arguments))]
    ++ member "named_args" .bool r.namedFlag
    ++ member "returns" Snapshot.toJson r.result
    ++ member "mocked_object" Snapshot.toJson r.receiver
    ++ member "location" .string r.location
    ++ member "example" .string r.testCase
    ++ member "raised" .string r.raised)

/-- The names of the members in order. -/
def memberNames : List String :=
  ["method", "arguments", "named_args", "returns", "mocked_object", "location", "example",
    "raised"]

/-- The number of levels that a recording puts around the call, and the arguments in it. -/
def levels : Nat := 3

/-- Reads a recorded call. -/
def ofJson? (j : Json) : Option CallSnapshot := do
  match ← structure? memberNames j with
  | [some method, arguments, namedFlag, result, receiver, location, testCase, raised] =>
    return {
      method := ← text? method
      arguments := ← list? (Snapshot.ofJson? (Snapshot.maxDepth - levels - 1)) arguments
      namedFlag := ← optional? bool? namedFlag
      result := ← optional? (Snapshot.ofJson? (Snapshot.maxDepth - levels)) result
      receiver := ← optional? (Snapshot.ofJson? (Snapshot.maxDepth - levels)) receiver
      location := ← optional? text? location
      testCase := ← optional? text? testCase
      raised := ← optional? text? raised }
  | _ => none

end CallSnapshot

namespace Recording

/-- The data of a recording. -/
def toJson (r : Recording) : Json :=
  .object [("types", .array (r.types.map (·.toJson))), ("calls", .array (r.calls.map (·.toJson)))]

/-- Reads a recording. -/
def ofJson? (j : Json) : Option Recording := do
  match ← structure? ["types", "calls"] j with
  | [types, calls] =>
    return { types := ← list? TypeSnapshot.ofJson? types
             calls := ← list? CallSnapshot.ofJson? calls }
  | _ => none

/-- The text of a recording. -/
def text (r : Recording) : String :=
  r.toJson.prettyText

/-- Reads the text of a recording. -/
def parse? (text : String) : Option Recording := do
  ofJson? (← Json.parse? text)

/-- Reads a recording from a file. -/
def load (files : Files) (path : String) : Except Error Recording :=
  match files.read path with
  | .error fault => .error (.fileSystem "Cannot read recording" fault)
  | .ok text =>
    match parse? text with
    | none => .error (.withContext path)
    | some r => .ok r

/-- Writes a recording to a file. -/
def save (r : Recording) (files : Files) (path : String) : Except Error FileWrite :=
  files.write path r.text |>.mapError (.fileSystem "Cannot write recording")

end Recording

end MockAudit

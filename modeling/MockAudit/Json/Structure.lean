import MockAudit.Json.Basic

/-!
# Structures in JSON documents

A structure with named fields is an object with these members, or an array that gives the fields in
order. A field that is not given stays empty, and null stands for an optional field without
content.
-/

namespace MockAudit.Json

/-- Arranges what a document gives by field. A field may be given once only, and members that are
no fields are ignored. -/
def structure? (names : List String) : Json → Option (List (Option Json))
  | .object members =>
    names.mapM fun name =>
      match members.filter (·.1 == name) with
      | [] => some none
      | [(_, content)] => some (some content)
      | _ => none
  | .array items =>
    if items.length ≤ names.length then
      some (items.map some ++ List.replicate (names.length - items.length) none)
    else none
  | _ => none

/-- Reads a text. -/
def text? : Json → Option String
  | .string s => some s
  | _ => none

/-- Reads a truth value. -/
def bool? : Json → Option Bool
  | .bool b => some b
  | _ => none

/-- Reads an optional field. -/
def optional? {α : Type} (read : Json → Option α) : Option Json → Option (Option α)
  | none | some .null => some none
  | some j => (read j).map some

/-- Reads a list, which is empty if it is not given. -/
def list? {α : Type} (read : Json → Option α) : Option Json → Option (List α)
  | none => some []
  | some (.array items) => items.mapM read
  | some _ => none

/-- Writes what may be missing as null. -/
def ofOption {α : Type} (write : α → Json) : Option α → Json
  | none => .null
  | some a => write a

/-- Writes a member, or nothing if there is no content. -/
def member {α : Type} (name : String) (write : α → Json) : Option α → List (String × Json)
  | none => []
  | some a => [(name, write a)]

end MockAudit.Json

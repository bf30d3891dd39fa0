import MockAudit.Json.Number
import MockAudit.Json.Reader
import MockAudit.Json.Structure
import MockAudit.Json.Writer
import MockAudit.Recording.Snapshot

/-!
# Snapshots as data

The form of values in recordings. A value is an object with one member named for the kind of the
value; kinds without content may also be a bare string.
-/

namespace MockAudit.Snapshot

/-- An object with one member. -/
private def tagged (tag : String) (content : Json) : Json :=
  .object [(tag, content)]

/-- The data of the kind of a double. -/
def kindToJson : DoubleRole → Json
  | .plain => .string "Plain"
  | .instanceOf t => tagged "Instance" (.string t)
  | .staticOf t => tagged "Static" (.string t)

mutual

/-- The data of a snapshot. -/
def toJson : Snapshot → Json
  | .nil => .string "Nil"
  | .bool b => tagged "Bool" (.bool b)
  | .int i => tagged "Int" (.ofInt i.toInt)
  | .float x => tagged "Float" (match x.dataText? with
      | some text => .number text.toList
      | none => .null)
  | .str s => tagged "Str" (.string s)
  | .symbol name => tagged "Symbol" (.string name)
  | .array items => tagged "Array" (.array (itemsToJson items))
  | .map entries => tagged "Map" (.array (entriesToJson entries))
  | .type name => tagged "Type" (.string name)
  | .object t fields =>
    tagged "Object" (.object [("type", .string t), ("fields", .object (fieldsToJson fields))])
  | .double name kind =>
    tagged "Double" (.object [("name", Json.ofOption .string name), ("kind", kindToJson kind)])

/-- The data of several snapshots. -/
def itemsToJson : List Snapshot → List Json
  | [] => []
  | s :: ss => toJson s :: itemsToJson ss

/-- The data of the entries of a map. -/
def entriesToJson : List (Snapshot × Snapshot) → List Json
  | [] => []
  | (k, v) :: rest => .array [toJson k, toJson v] :: entriesToJson rest

/-- The data of the fields of an object. -/
def fieldsToJson : List (String × Snapshot) → List (String × Json)
  | [] => []
  | (name, s) :: rest => (name, toJson s) :: fieldsToJson rest

end

/-- The deepest nesting of arrays and objects that is read. -/
def maxDepth : Nat := 127

/-- Reads a kind of double below the given number of levels. -/
def kindOfJson? (depth : Nat) : Json → Option DoubleRole
  | .string "Plain" => some .plain
  | .object [("Plain", .null)] => if depth = 0 then none else some .plain
  | .object [("Instance", .string t)] => if depth = 0 then none else some (.instanceOf t)
  | .object [("Static", .string t)] => if depth = 0 then none else some (.staticOf t)
  | _ => none

/-- Reads a double below the given number of levels. -/
def doubleOfJson? : Nat → Json → Option Snapshot
  | 0, _ => none
  | depth + 1, j => do
    match ← Json.structure? ["name", "kind"] j with
    | [name, some kind] => do
      return .double (← Json.optional? Json.text? name) (← kindOfJson? depth kind)
    | _ => none

/-- Reads the content of a snapshot without parts. -/
def scalarOfJson? : String → Json → Option Snapshot
  | "Nil", .null => some .nil
  | "Bool", .bool b => some (.bool b)
  | "Int", .number text => (Json.NumberText.ofText text).toInt64?.map .int
  | "Float", .number text => (Json.NumberText.ofText text).toBinary64?.map .float
  | "Str", .string s => some (.str s)
  | "Symbol", .string name => some (.symbol name)
  | "Type", .string name => some (.type name)
  | _, _ => none

/-- Reads a snapshot. The number bounds the levels of arrays and objects around it. -/
def ofJson? : Nat → Json → Option Snapshot
  | _, .string "Nil" => some .nil
  | depth + 1, .object [(tag, content)] =>
    match tag, content, depth with
    | "Array", .array items, depth + 1 => (items.mapM (ofJson? depth)).map .array
    | "Map", .array entries, depth + 2 =>
      (entries.mapM fun entry =>
        match entry with
        | Json.array [k, v] => do return (← ofJson? depth k, ← ofJson? depth v)
        | _ => none).map .map
    | "Map", .array [], _ + 1 => some (.map [])
    | "Object", j, depth + 1 => do
      match ← Json.structure? ["type", "fields"] j with
      | [some (.string t), none] => some (.object t [])
      | [some (.string t), some (.object members)] =>
        match depth with
        | depth + 1 => do
          let fields ← members.mapM fun (name, v) => do return (name, ← ofJson? depth v)
          some (.object t (Fields.ofList fields))
        | 0 => none
      | _ => none
    | "Double", j, depth => doubleOfJson? depth j
    | tag, content, _ => scalarOfJson? tag content
  | _, _ => none

/-- Reads a text that holds one snapshot. -/
def parse? (text : String) : Option Snapshot := do
  ofJson? maxDepth (← Json.parse? text)

end MockAudit.Snapshot

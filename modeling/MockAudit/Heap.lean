import MockAudit.Value.Basic

/-!
# Objects and their fields

Objects and doubles receive their identities in the order in which they are created. The heap holds
the fields of all objects, each list of fields in ascending order of names.
-/

namespace MockAudit

/-- The fields of an object, in ascending order of names. -/
abbrev Fields (α : Type) := List (String × α)

namespace Fields

variable {α : Type}

/-- The content of a field. -/
def find? (fields : Fields α) (name : String) : Option α :=
  match fields with
  | [] => none
  | (n, a) :: rest => if n = name then some a else Fields.find? rest name

/-- Sets a field and keeps the order of names. -/
def store (fields : Fields α) (name : String) (a : α) : Fields α :=
  match fields with
  | [] => [(name, a)]
  | (n, b) :: rest =>
    if n = name then (name, a) :: rest
    else if name < n then (name, a) :: (n, b) :: rest
    else (n, b) :: Fields.store rest name a

/-- The fields given by a list in which the last content of a name counts. -/
def ofList (entries : List (String × α)) : Fields α :=
  entries.foldl (fun fields (name, a) => fields.store name a) []

end Fields

/-- The fields of the objects created so far. -/
structure Heap where
  /-- The identity of the next object or double. -/
  next : Nat
  /-- The fields of the object with an identity. -/
  fields : Nat → Fields Value

namespace Heap

/-- The heap before anything is created. -/
def empty : Heap := ⟨0, fun _ => []⟩

/-- Creates an object. -/
def newObject (heap : Heap) (type : TypeName) (fields : Fields Value) : Value × Heap :=
  (.object heap.next type,
    ⟨heap.next + 1, fun id => if id = heap.next then fields else heap.fields id⟩)

/-- Creates a test double. -/
def newDouble (heap : Heap) (name : Option String) (kind : DoubleRole) : Value × Heap :=
  (.double ⟨heap.next, name, kind⟩, { heap with next := heap.next + 1 })

/-- The value of a field; what is no object has no fields. -/
def field? (heap : Heap) (v : Value) (name : String) : Option Value :=
  match v with
  | .object id _ => (heap.fields id).find? name
  | _ => none

/-- Sets a field of an object; nothing happens to what is no object. -/
def setField (heap : Heap) (v : Value) (name : String) (content : Value) : Heap :=
  match v with
  | .object id _ =>
    { heap with fields := fun i =>
        if i = id then (heap.fields i).store name content else heap.fields i }
  | _ => heap

end Heap

end MockAudit

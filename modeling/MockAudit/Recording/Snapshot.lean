import MockAudit.Heap

/-!
# Snapshots of values

A snapshot is a value written out in full: objects with the fields they have at that moment, and
nothing with an identity. Restoring a snapshot creates its objects and doubles anew.
-/

namespace MockAudit

/-- A value without identities. -/
inductive Snapshot
  | nil
  | bool (b : Bool)
  | int (i : Int64)
  | float (x : Binary64)
  | str (s : String)
  | symbol (name : String)
  | array (items : List Snapshot)
  | map (entries : List (Snapshot × Snapshot))
  | type (name : TypeName)
  | object (type : TypeName) (fields : List (String × Snapshot))
  | double (name : Option String) (kind : DoubleRole)

instance : Inhabited Snapshot := ⟨.nil⟩

namespace Snapshot

mutual

/-- The snapshot of a value, given that of the fields of an object. -/
def ofValueWith (fields : Nat → List (String × Snapshot)) : Value → Snapshot
  | .nil => .nil
  | .bool b => .bool b
  | .int i => .int i
  | .float x => .float x
  | .str s => .str s
  | .symbol name => .symbol name
  | .array items => .array (ofItemsWith fields items)
  | .map entries => .map (ofEntriesWith fields entries)
  | .type name => .type name
  | .object id t => .object t (fields id)
  | .double d => .double d.name d.kind

/-- The snapshots of a list of values. -/
def ofItemsWith (fields : Nat → List (String × Snapshot)) : List Value → List Snapshot
  | [] => []
  | v :: vs => ofValueWith fields v :: ofItemsWith fields vs

/-- The snapshots of the entries of a map. -/
def ofEntriesWith (fields : Nat → List (String × Snapshot)) :
    List (Value × Value) → List (Snapshot × Snapshot)
  | [] => []
  | (k, v) :: rest => (ofValueWith fields k, ofValueWith fields v) :: ofEntriesWith fields rest

end

/-- The snapshot of the fields of an object down to the given number of objects inside one
another. -/
def ofFields (heap : Heap) : Nat → Nat → List (String × Snapshot)
  | 0, _ => []
  | depth + 1, id =>
    (heap.fields id).map fun (name, v) => (name, ofValueWith (ofFields heap depth) v)

/-- The snapshot of a value. No chain of objects that does not repeat is longer than the number of
objects there are. An object that is reached from itself cannot be written out, as that has no end;
its snapshot, which stops at this depth, stands for no recording. -/
def ofValue (heap : Heap) (v : Value) : Snapshot :=
  ofValueWith (ofFields heap heap.next) v

mutual

/-- Creates the value of a snapshot. -/
def restore : Snapshot → Heap → Value × Heap
  | .nil, heap => (.nil, heap)
  | .bool b, heap => (.bool b, heap)
  | .int i, heap => (.int i, heap)
  | .float x, heap => (.float x, heap)
  | .str s, heap => (.str s, heap)
  | .symbol name, heap => (.symbol name, heap)
  | .array items, heap =>
    let (vs, heap) := restoreItems items heap
    (.array vs, heap)
  | .map entries, heap =>
    let (es, heap) := restoreEntries entries heap
    (.map es, heap)
  | .type name, heap => (.type name, heap)
  | .object t fields, heap =>
    let (fs, heap) := restoreFields fields heap
    heap.newObject t (Fields.ofList fs)
  | .double name kind, heap => heap.newDouble name kind

/-- Creates the values of several snapshots. -/
def restoreItems : List Snapshot → Heap → List Value × Heap
  | [], heap => ([], heap)
  | s :: ss, heap =>
    let (v, heap) := restore s heap
    let (vs, heap) := restoreItems ss heap
    (v :: vs, heap)

/-- Creates the entries of a map. -/
def restoreEntries : List (Snapshot × Snapshot) → Heap → List (Value × Value) × Heap
  | [], heap => ([], heap)
  | (k, s) :: rest, heap =>
    let (key, heap) := restore k heap
    let (v, heap) := restore s heap
    let (vs, heap) := restoreEntries rest heap
    ((key, v) :: vs, heap)

/-- Creates the fields of an object. -/
def restoreFields : List (String × Snapshot) → Heap → List (String × Value) × Heap
  | [], heap => ([], heap)
  | (name, s) :: rest, heap =>
    let (v, heap) := restore s heap
    let (vs, heap) := restoreFields rest heap
    ((name, v) :: vs, heap)

end

end Snapshot

end MockAudit

import MockAudit.Hierarchy
import MockAudit.Shape
import MockAudit.Signature.Basic
import MockAudit.Target

/-!
# The catalog of declared types

Which types are declared, what they inherit from, and which methods they define. A method is
looked up along the declared superclasses, as far as the types on the way are declared.
-/

namespace MockAudit

/-- A method as declared. -/
structure MethodDeclaration where
  shape : Shape
  location : String
  signature : Option Signature := none

/-- A table of entries with distinct keys, in the order in which the keys were first stored. -/
abbrev Entries (α : Type) := List (String × α)

namespace Entries

variable {α : Type}

/-- The entry stored under a key. -/
def find? (entries : Entries α) (key : String) : Option α :=
  match entries with
  | [] => none
  | (k, a) :: rest => if k = key then some a else Entries.find? rest key

/-- Stores an entry in place of the one under the same key, if there is one. -/
def store (entries : Entries α) (key : String) (a : α) : Entries α :=
  match entries with
  | [] => [(key, a)]
  | (k, b) :: rest => if k = key then (key, a) :: rest else (k, b) :: Entries.store rest key a

/-- Storing answers for the stored key and leaves the others as they were. -/
theorem find?_store (entries : Entries α) (key : String) (a : α) (key' : String) :
    (entries.store key a).find? key' = if key = key' then some a else entries.find? key' := by
  induction entries with
  | nil => simp [store, find?]
  | cons e rest ih => grind [store, find?]

end Entries

/-- A declared type. -/
structure TypeDeclaration where
  superclass : Option TypeName := none
  instanceMethods : Entries MethodDeclaration := []
  typeMethods : Entries MethodDeclaration := []

namespace TypeDeclaration

/-- The methods on one side of a type. -/
def methods (d : TypeDeclaration) (onType : Bool) : Entries MethodDeclaration :=
  if onType then d.typeMethods else d.instanceMethods

/-- Declares a method on one side of a type. -/
def storeMethod (d : TypeDeclaration) (onType : Bool) (name : String) (m : MethodDeclaration) :
    TypeDeclaration :=
  if onType then { d with typeMethods := d.typeMethods.store name m }
  else { d with instanceMethods := d.instanceMethods.store name m }

/-- The type with what a second definition adds to it: a superclass takes the place of the known
one, and methods are added. -/
def merge (d other : TypeDeclaration) : TypeDeclaration :=
  { superclass := other.superclass.or d.superclass
    instanceMethods := other.instanceMethods.foldl (fun ms m => ms.store m.1 m.2)
      d.instanceMethods
    typeMethods := other.typeMethods.foldl (fun ms m => ms.store m.1 m.2) d.typeMethods }

end TypeDeclaration

/-- The declared types. -/
structure Catalog where
  types : Entries TypeDeclaration

namespace Catalog

/-- The catalog without any type. -/
def empty : Catalog := ⟨[]⟩

/-- The declaration of a type. -/
def find? (c : Catalog) (name : TypeName) : Option TypeDeclaration :=
  c.types.find? name

/-- Whether a type is declared. -/
def contains (c : Catalog) (name : TypeName) : Bool :=
  (c.find? name).isSome

/-- Defines a type, or adds to its definition. -/
def define (c : Catalog) (name : TypeName) (d : TypeDeclaration) : Catalog :=
  ⟨c.types.store name ((c.find? name).elim d (·.merge d))⟩

/-- Declares a method; its type is declared with it if need be. -/
def addMethod (c : Catalog) (target : Target) (name : String) (m : MethodDeclaration) : Catalog :=
  let d := (c.find? target.type).getD {}
  ⟨c.types.store target.type (d.storeMethod target.onType name m)⟩

/-- The method declared on a target itself. -/
def declaredMethod? (c : Catalog) (target : Target) (name : String) : Option MethodDeclaration :=
  (c.find? target.type).bind fun d => (d.methods target.onType).find? name

/-- Annotates a method with a signature, if the target itself declares it. -/
def annotate? (c : Catalog) (target : Target) (name : String) (s : Signature) :
    Option Catalog :=
  (c.declaredMethod? target name).map fun m =>
    c.addMethod target name { m with signature := some s }

/-- The greatest number of types visited in search of a method. -/
def maxVisits : Nat := 65

/-- Looks for a method along the superclasses, visiting a bounded number of types. -/
def lookupFrom (c : Catalog) (onType : Bool) (name : String) :
    Nat → TypeName → Option (Target × MethodDeclaration)
  | 0, _ => none
  | visits + 1, type => do
    let d ← c.find? type
    match (d.methods onType).find? name with
    | some m => some (⟨type, onType⟩, m)
    | none => c.lookupFrom onType name visits (← d.superclass)

/-- The definition of a method with the target that declares it. -/
def lookup (c : Catalog) (target : Target) (name : String) : Option (Target × MethodDeclaration) :=
  c.lookupFrom target.onType name maxVisits target.type

/-- The names of the declared types in ascending order. -/
def names (c : Catalog) : List TypeName :=
  (c.types.map (·.1)).mergeSort

/-- The hierarchy of the declared and the built-in types. -/
def hierarchy (c : Catalog) : Hierarchy :=
  Hierarchy.layered (fun t => (c.find? t).bind (·.superclass)) Hierarchy.builtin

/-- Whether a type is declared or needs no declaration. -/
def knows (c : Catalog) (name : TypeName) : Bool :=
  name.isBuiltin || c.contains name

/-- The signature annotated on a method. -/
def annotated? (c : Catalog) (target : Target) (name : String) : Option Signature :=
  (c.lookup target name).bind (·.2.signature)

end Catalog

end MockAudit

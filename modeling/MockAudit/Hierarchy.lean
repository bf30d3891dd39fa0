import MockAudit.Value.Basic

/-!
# Type hierarchies

A hierarchy gives each type its direct superclass. One type is a subtype of another if it is the
same type or the other is reached by a bounded walk up the superclasses; every type is a subtype
of the top.
-/

namespace MockAudit

/-- The direct superclass of each type. -/
abbrev Hierarchy := TypeName → Option TypeName

namespace Hierarchy

/-- The greatest number of steps of a walk up the hierarchy. -/
def maxSteps : Nat := 64

/-- Whether a type is found on the way up within the given number of steps. -/
def reaches (h : Hierarchy) (sup : TypeName) : Nat → TypeName → Bool
  | 0, _ => false
  | steps + 1, t =>
    match h t with
    | none => false
    | some parent => parent == sup || h.reaches sup steps parent

/-- Whether a type may stand where the other is expected. -/
def isSubtype (h : Hierarchy) (sub sup : TypeName) : Bool :=
  sub == sup || sup == TypeName.object || h.reaches sup maxSteps sub

/-- Every type is a subtype of itself. -/
@[simp] theorem isSubtype_self (h : Hierarchy) (t : TypeName) : h.isSubtype t t = true := by
  simp [isSubtype]

/-- Every type is a subtype of the top. -/
@[simp] theorem isSubtype_object (h : Hierarchy) (t : TypeName) :
    h.isSubtype t TypeName.object = true := by
  simp [isSubtype]

/-- The hierarchy of the types that need no declaration: the two number types are numeric, and
every other type stands directly below the top. -/
def builtin : Hierarchy := fun t =>
  if t = TypeName.object then none
  else if t = "Integer" ∨ t = "Float" then some "Numeric"
  else some TypeName.object

/-- Looks for a superclass in the first hierarchy and falls back to the second. -/
def layered (first second : Hierarchy) : Hierarchy := fun t =>
  (first t).or (second t)

end Hierarchy

end MockAudit

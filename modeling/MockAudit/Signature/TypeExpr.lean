import MockAudit.Hierarchy
import MockAudit.Text.Blank

/-!
# Type expressions

What a signature says about one value: anything, the type of the receiver, a named type together
with its subtypes, an optional type, or a union.
-/

namespace MockAudit

/-- A type expression. -/
inductive TypeExpr
  | untyped
  | self
  | named (name : TypeName)
  | optional (inner : TypeExpr)
  | union (members : List TypeExpr)

instance : Inhabited TypeExpr := ⟨.untyped⟩

/-- The type whose place a test double may take besides that of every double. -/
def TestDouble.standsFor? (d : TestDouble) : Option TypeName :=
  match d.kind, d.name with
  | .instanceOf t, _ => some t
  | .plain, some label => some label
  | .plain, none | .staticOf _, _ => none

/-- Whether a value may stand where a named type is expected. A double stands in for its type;
every other value goes by its runtime type. -/
def Value.inhabits (v : Value) (expected : TypeName) (h : Hierarchy) : Bool :=
  match v with
  | .double d =>
    expected == "Double" || expected == TypeName.object
      || d.standsFor?.any (h.isSubtype · expected)
  | v => h.isSubtype v.typeName expected

namespace TypeExpr

mutual

/-- Whether a value satisfies a type expression for a receiver of type `receiver`. -/
def accepts (v : Value) (receiver : TypeName) (h : Hierarchy) : TypeExpr → Bool
  | .untyped => true
  | .self => v.inhabits receiver h
  | .named name => v.inhabits name h
  | .optional inner => v.isNil || accepts v receiver h inner
  | .union members => anyAccepts v receiver h members

/-- Whether a value satisfies one of several type expressions. -/
def anyAccepts (v : Value) (receiver : TypeName) (h : Hierarchy) : List TypeExpr → Bool
  | [] => false
  | t :: ts => accepts v receiver h t || anyAccepts v receiver h ts

end

theorem anyAccepts_eq_any (v : Value) (receiver : TypeName) (h : Hierarchy)
    (ts : List TypeExpr) : anyAccepts v receiver h ts = ts.any (accepts v receiver h) := by
  induction ts with
  | nil => rfl
  | cons t ts ih => rw [anyAccepts, ih, List.any_cons]

/-- The union of named types: a single one stands for itself, and of none nothing is known. -/
def ofNames : List TypeName → TypeExpr
  | [] => .untyped
  | [name] => .named name
  | names => .union (names.map .named)

mutual

/-- The text of a type expression. A union below an optional type needs parentheses. -/
def text : TypeExpr → String
  | .untyped => "untyped"
  | .self => "self"
  | .named name => name
  | .optional (.union members) =>
    "?(" ++ String.intercalate " | " (texts members) ++ ")"
  | .optional inner => "?" ++ text inner
  | .union members => String.intercalate " | " (texts members)

/-- The texts of several type expressions. -/
def texts : List TypeExpr → List String
  | [] => []
  | t :: ts => text t :: texts ts

end

theorem texts_eq_map (ts : List TypeExpr) : texts ts = ts.map text := by
  induction ts with
  | nil => rfl
  | cons t ts ih => rw [texts, ih, List.map_cons]

mutual

/-- The named types that occur in a type expression, with repetitions. -/
def references : TypeExpr → List TypeName
  | .untyped | .self => []
  | .named name => [name]
  | .optional inner => references inner
  | .union members => allReferences members

/-- The named types that occur in several type expressions. -/
def allReferences : List TypeExpr → List TypeName
  | [] => []
  | t :: ts => references t ++ allReferences ts

end

end TypeExpr

end MockAudit

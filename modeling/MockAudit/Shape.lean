import MockAudit.Value.Equality

/-!
# Parameter shapes

The declared parameters of a method, and the way the arguments of a call are bound to them.
-/

namespace MockAudit

/-- The kinds of parameters. -/
inductive ParameterKind
  | required
  | optional
  | rest
  | keyRequired
  | key
  | keyRest
  /-- The method takes no named arguments. -/
  | noKey
  | block
deriving DecidableEq

/-- Whether a parameter receives named arguments. -/
def ParameterKind.isKeyword : ParameterKind → Bool
  | keyRequired | key | keyRest => true
  | _ => false

/-- A declared parameter. -/
structure Parameter where
  kind : ParameterKind
  name : String
deriving DecidableEq

/-- The declared parameters of a method in order. -/
structure Shape where
  params : List Parameter
deriving DecidableEq

/-- A parameter with the value it received. -/
structure Binding where
  kind : ParameterKind
  name : String
  value : Value

namespace Shape

/-- The shape of a method without parameters. -/
def empty : Shape := ⟨[]⟩

/-- The shape with one more parameter. -/
def add (shape : Shape) (kind : ParameterKind) (name : String) : Shape :=
  ⟨shape.params ++ [⟨kind, name⟩]⟩

/-- The name given to the parameter that refuses named arguments. -/
def refusalName : String := "**nil"

/-- The parameters for named arguments, of which there are none if the method refuses them. -/
def namedParams (shape : Shape) : List Parameter :=
  if shape.params.any (·.kind == .noKey) then []
  else shape.params.filter (·.kind.isKeyword)

/-- Whether the method takes named arguments. -/
def acceptsNamed (shape : Shape) : Bool :=
  !shape.namedParams.isEmpty

/-- The number of positional arguments the method cannot do without. -/
def leastPositional (shape : Shape) : Nat :=
  shape.params.countP (·.kind == .required)

/-- Splits arguments into positional and named ones: a last argument in the form of named
arguments is taken as such if the method takes any. -/
def split (shape : Shape) (args : List Value) : List Value × List (Value × Value) :=
  match args.getLast? with
  | some (.map entries) =>
    if shape.acceptsNamed && (Value.map entries).isNamedArguments then (args.dropLast, entries)
    else (args, [])
  | _ => (args, [])

/-- The value of the first entry for a keyword together with the other entries. -/
def takeKeyword (name : String) :
    List (Value × Value) → Option (Value × List (Value × Value))
  | [] => none
  | (k, v) :: rest =>
    if k.equal (.symbol name) then some (v, rest)
    else (takeKeyword name rest).map fun (found, others) => (found, (k, v) :: others)

/-- Serves the parameters in declaration order from the remaining arguments. -/
def bindParams : List Parameter → List Value → List (Value × Value) → List Binding
  | [], _, _ => []
  | ⟨kind, name⟩ :: params, positional, named =>
    match kind with
    | .required | .optional =>
      match positional with
      | [] => bindParams params [] named
      | v :: vs => ⟨kind, name, v⟩ :: bindParams params vs named
    | .rest => ⟨kind, name, .array positional⟩ :: bindParams params [] named
    | .keyRequired | .key =>
      match takeKeyword name named with
      | none => bindParams params positional named
      | some (v, others) => ⟨kind, name, v⟩ :: bindParams params positional others
    | .keyRest => ⟨kind, name, .map named⟩ :: bindParams params positional []
    | .noKey | .block => bindParams params positional named

/-- Binds the arguments of a call. Parameters that receive nothing are left out. -/
def bind (shape : Shape) (args : List Value) : List Binding :=
  let (positional, named) := shape.split args
  bindParams shape.params positional named

end Shape

end MockAudit

import MockAudit.Numeric.Binary64

/-!
# Values seen in method calls

What flows through the arguments and results of calls. Scalars and collections are plain data;
an object and a test double are known by an identity, and an object's fields live in the heap of
the program that created it.
-/

namespace MockAudit

/-- The name of a type of the audited program. -/
abbrev TypeName := String

namespace TypeName

/-- The top of every hierarchy. -/
def object : TypeName := "Object"

/-- The types of the values that are not objects of the audited program. -/
def builtins : List TypeName :=
  ["Nil", "Bool", "Integer", "Float", "Numeric", "String", "Symbol", "Array", "Map", "Type",
    "Double", object]

/-- Whether a type is known without being declared. -/
def isBuiltin (name : TypeName) : Bool :=
  builtins.contains name

end TypeName

/-- What a test double stands in for. -/
inductive DoubleRole
  | plain
  | instanceOf (type : TypeName)
  | staticOf (type : TypeName)
deriving DecidableEq

/-- A test double with its identity. -/
structure TestDouble where
  identity : Nat
  name : Option String
  kind : DoubleRole
deriving DecidableEq

/-- The type a verifying double stands in for. -/
def DoubleRole.verifiedType? : DoubleRole → Option TypeName
  | plain => none
  | instanceOf t | staticOf t => some t

/-- A value of the audited program. -/
inductive Value
  | nil
  | bool (b : Bool)
  | int (i : Int64)
  | float (x : Binary64)
  | str (s : String)
  | symbol (name : String)
  | array (items : List Value)
  /-- Key and value pairs in order; keys may repeat. -/
  | map (entries : List (Value × Value))
  /-- A type used as a value, such as the receiver of a static call. -/
  | type (name : TypeName)
  | object (identity : Nat) (type : TypeName)
  | double (d : TestDouble)

instance : Inhabited Value := ⟨.nil⟩

namespace Value

/-- The runtime type of a value. -/
def typeName : Value → TypeName
  | nil => "Nil"
  | bool _ => "Bool"
  | int _ => "Integer"
  | float _ => "Float"
  | str _ => "String"
  | symbol _ => "Symbol"
  | array _ => "Array"
  | map _ => "Map"
  | type _ => "Type"
  | object _ t => t
  | double _ => "Double"

/-- Whether a value is nil. -/
def isNil : Value → Bool
  | nil => true
  | _ => false

/-- Whether a value is a test double. -/
def isDouble : Value → Bool
  | double _ => true
  | _ => false

/-- Whether a value is a symbol. -/
def isSymbol : Value → Bool
  | symbol _ => true
  | _ => false

/-- The entries of a map. -/
def entries? : Value → Option (List (Value × Value))
  | map entries => some entries
  | _ => none

/-- Whether a value is a map with at least one entry whose keys are all symbols: the form in which
named arguments travel. -/
def isNamedArguments : Value → Bool
  | map entries => !entries.isEmpty && entries.all (·.1.isSymbol)
  | _ => false

end Value

end MockAudit

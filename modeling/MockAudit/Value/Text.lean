import MockAudit.Value.Basic
import MockAudit.Text.Quoted
import MockAudit.Numeric.Decimal

/-!
# The text of a value

The form in which values appear in messages: texts are quoted, symbols have a colon, and an entry
of a map is written with a colon if its key is a symbol and with an arrow otherwise.
-/

namespace MockAudit

/-- The text of a test double. -/
def TestDouble.text (d : TestDouble) : String :=
  match d.kind, d.name with
  | .plain, some name => "#<Double " ++ Text.quote name ++ ">"
  | .plain, none => "#<Double (anonymous)>"
  | .instanceOf t, _ => "#<InstanceDouble(" ++ t ++ ")>"
  | .staticOf t, _ => "#<StaticDouble(" ++ t ++ ")>"

mutual

/-- The text of a value in messages. -/
def Value.text : Value → String
  | .nil => "nil"
  | .bool b => if b then "true" else "false"
  | .int i => toString i.toInt
  | .float x => x.text
  | .str s => Text.quote s
  | .symbol name => ":" ++ name
  | .array items => "[" ++ String.intercalate ", " (Value.texts items) ++ "]"
  | .map entries => "\x7b" ++ String.intercalate ", " (Value.entryTexts entries) ++ "\x7d"
  | .type name => name
  | .object _ t => "#<" ++ t ++ ">"
  | .double d => d.text

/-- The texts of a list of values. -/
def Value.texts : List Value → List String
  | [] => []
  | v :: vs => v.text :: Value.texts vs

/-- The texts of the entries of a map. -/
def Value.entryTexts : List (Value × Value) → List String
  | [] => []
  | (.symbol name, v) :: rest => (name ++ ": " ++ v.text) :: Value.entryTexts rest
  | (k, v) :: rest => (k.text ++ " => " ++ v.text) :: Value.entryTexts rest

end

/-- The text of a list of arguments. -/
def Value.argumentsText (args : List Value) : String :=
  String.intercalate ", " (args.map Value.text)

end MockAudit

import MockAudit.Machine.Basic
import MockAudit.Value.Equality

/-!
# The tax office

A small program to audit: a calculator that looks up the rate of an income in a table of brackets,
and an accountant that works with a calculator.
-/

namespace MockAudit.TaxOffice

/-- The type of calculators. -/
def calculator : TypeName := "TaxCalculator"

/-- The type of the results of calculations. -/
def result : TypeName := "TaxCalculator::Result"

/-- The type of accountants. -/
def accountant : TypeName := "Accountant"

/-- The incomes below which each rate applies, with the rates in hundredths. -/
def brackets : List (Int × Nat) := [(10, 10), (40, 12), (90, 22), (170, 24), (215, 32)]

/-- The rate of an income, or nil above the last bracket. -/
def rateOf (income : Int64) : Value :=
  match brackets.find? fun (limit, _) => income.toInt < limit with
  | some (_, hundredths) => .float (.ofRatio false hundredths 100)
  | none => .nil

/-- Creates the result of a calculation. -/
def newResult (tax : Int64) (rate : Binary64) (heap : Heap) : Value × Heap :=
  heap.newObject result [("result", .int tax), ("tax_rate", .float rate)]

/-- The place of a method in the text of the program. -/
def line (n : Nat) : String :=
  "fixtures/tax_calculator.rs:" ++ toString n

/-- Goes on with an integer argument. -/
def withInteger (args : List Value) (next : Int64 → Procedure) : Procedure :=
  match args.head? with
  | some (.int i) => next i
  | some other => .raise "TypeError" (other.typeName ++ " can't be coerced into Integer")
  | none => .raise "ArgumentError" "wrong number of arguments (given 0, expected 1)"

/-- The value given for a keyword by the last argument. -/
def keyword? (args : List Value) (name : String) : Option Value :=
  args.getLast?.bind (·.get? (.symbol name))

/-- Calculates the tax on an income; a negative income has no tax. -/
def calculate (receiver : Value) (args : List Value) : Procedure :=
  withInteger args fun income =>
    if income < 0 then .give .nil
    else
      .send receiver "tax_rate_for" [.map [(.symbol "value", .int income)]] <| .onValue fun
        | .float rate =>
          .onHeap (newResult (rate.mul (.ofInt income.toInt)).truncate rate) .give
        | other => .raise "NoMethodError" ("undefined method `*` for " ++ other.text)

/-- Asks the type for the rate. -/
def askType (_receiver : Value) (args : List Value) : Procedure :=
  .send (.type calculator) "tax_rate_for" args .finish

/-- Looks up the rate of the income given as `value`. -/
def lookUpRate (_receiver : Value) (args : List Value) : Procedure :=
  match keyword? args "value" with
  | none => .raise "ArgumentError" "missing keyword: :value"
  | some (.int income) => .give (rateOf income)
  | some other =>
    .raise "ArgumentError" ("comparison of Integer with " ++ other.typeName ++ " failed")

/-- Reads the tax of a result. -/
def readResult (receiver : Value) (_args : List Value) : Procedure :=
  .readField receiver "result" .give

/-- Equips an accountant with the given calculator or a new one. -/
def equip (receiver : Value) (args : List Value) : Procedure :=
  let store (v : Value) : Procedure := .writeField receiver "tax_calculator" v (.give .nil)
  match keyword? args "tax_calculator" with
  | some given => store given
  | none => .construct calculator [] (.onValue store)

/-- Passes a message on to the calculator of an accountant. -/
def askCalculator (receiver : Value) (method : String) (args : List Value)
    (next : Outcome → Procedure) : Procedure :=
  .readField receiver "tax_calculator" fun v => .send v method args next

/-- What is left of an income after tax. -/
def netPay (receiver : Value) (args : List Value) : Procedure :=
  withInteger args fun income =>
    askCalculator receiver "for_income" [.int income] <| .onValue fun tax =>
      withInteger [tax] fun tax => .give (.int (income - tax))

/-- The tax on an income. -/
def taxFor (receiver : Value) (args : List Value) : Procedure :=
  askCalculator receiver "for_income" args <| .onValue fun v => .send v "result" [] .finish

/-- Passes the income on as it is given. -/
def rateFor (receiver : Value) (args : List Value) : Procedure :=
  askCalculator receiver "tax_rate_for" args .finish

/-- The program. -/
def machine : Machine :=
  let required (name : String) := Shape.empty.add .required name
  let value := Shape.empty.add .keyRequired "value"
  let m : Machine := {}
  let m := m.addType calculator none
  let m := m.addType result none
  let m := m.addMethod (.instances calculator, "for_income") (required "val") (line 14) calculate
  let m := m.addMethod (.instances calculator, "tax_rate_for") value (line 22) askType
  let m := m.addMethod (.typeItself calculator, "tax_rate_for") value (line 26) lookUpRate
  let m := m.addMethod (.instances result, "result") Shape.empty (line 4) readResult
  let m := m.addType accountant none
  let m := m.addMethod (.instances accountant, constructorName)
    (Shape.empty.add .key "tax_calculator") (line 34) equip
  let m := m.addMethod (.instances accountant, "net_pay") (required "val") (line 38) netPay
  let m := m.addMethod (.instances accountant, "tax_for") (required "val") (line 42) taxFor
  m.addMethod (.instances accountant, "tax_rate_for") (required "value") (line 46) rateFor

/-- The record of a real call of the program. -/
def sampleReal (key : MethodRef) (arguments : List Value) (result : Value) : Call :=
  { target := key.1, method := key.2, arguments, result := some result, location := some (line 1) }

/-- The record of a mocked call, as stubs report it. -/
def sampleMocked (key : MethodRef) (arguments : List Value) (result : Value) : Call :=
  { target := key.1, method := key.2, arguments, result := some result
    location := some stubLocation }

end MockAudit.TaxOffice

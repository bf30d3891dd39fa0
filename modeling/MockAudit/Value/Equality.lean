import MockAudit.Value.Basic

/-!
# Equality of values

Scalars, arrays and maps are compared by content, an integer equals a float of the same magnitude,
and objects and doubles are compared by identity. The entries of a map have no order: a map equals
another of the same size in which each of its entries occurs.
-/

namespace MockAudit

mutual

/-- Equality as the audited program sees it. -/
def Value.equal : Value → Value → Bool
  | .nil, .nil => true
  | .bool a, .bool b => a == b
  | .int a, .int b => a == b
  | .float a, .float b => a.equal b
  | .int a, .float b => (Binary64.ofInt a.toInt).equal b
  | .float a, .int b => (Binary64.ofInt b.toInt).equal a
  | .str a, .str b => a == b
  | .symbol a, .symbol b => a == b
  | .array as, .array bs => Value.equalItems as bs
  | .map as, .map bs => as.length == bs.length && Value.coveredBy as bs
  | .type a, .type b => a == b
  | .object a _, .object b _ => a == b
  | .double a, .double b => a.identity == b.identity
  | _, _ => false

/-- Equality of lists of values, item by item. -/
def Value.equalItems : List Value → List Value → Bool
  | [], [] => true
  | a :: as, b :: bs => a.equal b && Value.equalItems as bs
  | _, _ => false

/-- Whether each entry of the first list has an equal entry in the second. -/
def Value.coveredBy : List (Value × Value) → List (Value × Value) → Bool
  | [], _ => true
  | (k, v) :: rest, entries =>
    (entries.any fun e => k.equal e.1 && v.equal e.2) && Value.coveredBy rest entries

end

instance : BEq Value := ⟨Value.equal⟩

namespace Value

theorem beq_def (a b : Value) : (a == b) = a.equal b := rfl

/-- The value stored under the first key that equals the given one. -/
def lookup? (key : Value) : List (Value × Value) → Option Value
  | [] => none
  | (k, v) :: rest => if k.equal key then some v else lookup? key rest

/-- The value of a map under a key; what is no map has none. -/
def get? (m key : Value) : Option Value :=
  m.entries?.bind (lookup? key)

/-- The list comparison of the `BEq` instance is comparison item by item. -/
theorem beq_list_eq (as bs : List Value) : (as == bs) = equalItems as bs := by
  induction as generalizing bs with
  | nil => cases bs <;> simp [equalItems]
  | cons a as ih => cases bs with
    | nil => simp [equalItems]
    | cons b bs =>
      show (a == b && as == bs) = _
      rw [ih bs, equalItems, beq_def]

end Value

end MockAudit

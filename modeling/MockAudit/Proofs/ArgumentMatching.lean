import MockAudit.Contract
import MockAudit.Stubs.Answer

/-!
# Arguments that a contract recognises

A stub answers only arguments that equal its own. The contract of the stub looks at a real call
through the positions of the stub: it reads nil where the real call has no argument, and does not
look at what comes after the last position. If all arguments of the stub are compared by content,
the two agree on real calls seen in this way (`Contract.admits_ofStub`), so real calls none of
which has the arguments of the stub at its positions do not back the stub, whatever the hierarchy
of types.

## Main definitions

* `Call.argumentsAt`: the arguments of a call at its first positions.

## Main results

* `Contract.admits_ofStub`: a contract admits the calls with the arguments of its stub.
* `Contract.verify_of_foreign_arguments`: without such a call a contract fails.
-/

namespace MockAudit

/-- The arguments of a call at its first positions; it is nil where there is no argument. -/
def Call.argumentsAt (c : Call) (positions : Nat) : List Value :=
  (List.range positions).map fun index => c.arguments[index]?.getD .nil

/-- A call with as many arguments as there are positions shows all of them. -/
theorem Call.argumentsAt_length (c : Call) : c.argumentsAt c.arguments.length = c.arguments := by
  refine List.ext_getElem (by simp [argumentsAt]) fun index _ hindex => ?_
  simp [argumentsAt, hindex]

/-- Equal lists of values are equally long. -/
theorem Value.length_eq_of_beq {as bs : List Value} (h : (as == bs) = true) :
    as.length = bs.length := by
  rw [beq_list_eq] at h
  induction as generalizing bs with
  | nil => cases bs with
    | nil => rfl
    | cons b bs => simp [equalItems] at h
  | cons a as ih => cases bs with
    | nil => simp [equalItems] at h
    | cons b bs =>
      rw [equalItems, Bool.and_eq_true] at h
      rw [List.length_cons, List.length_cons, ih h.2]

namespace Contract

/-- The contract of a stub whose arguments are compared by content expects exactly these. -/
theorem pattern_ofStub {stub : Call} (hcomparable : ∀ v ∈ stub.arguments, v.isComparable = true) :
    (ofStub stub).pattern = stub.arguments.map .exactly :=
  List.map_congr_left fun v hv => if_pos (hcomparable v hv)

/-- Slots that expect values one by one are filled as if the values were compared with what stands
at their positions. -/
theorem all_slots_exactly (expected args : List Value) :
    (slots (expected.map .exactly) args).all (fun (p, v) => p.admits v) =
      (expected == (List.range expected.length).map fun index => args[index]?.getD .nil) := by
  induction expected generalizing args with
  | nil => rfl
  | cons v vs ih =>
    have hstep (a : Value) (as : List Value)
        (hhead : args[0]?.getD .nil = a) (htail : ∀ i : Nat, args[i + 1]? = as[i]?) :
        (v :: vs == (List.range (vs.length + 1)).map fun index => args[index]?.getD .nil) =
          (v == a && vs == (List.range vs.length).map fun index => as[index]?.getD .nil) := by
      rw [List.range_succ_eq_map, List.map_cons, List.map_map, hhead]
      simp only [Function.comp_def, Nat.succ_eq_add_one, htail]
      rfl
    cases args with
    | nil =>
      rw [List.map_cons, slots, List.all_cons, ih, List.length_cons, hstep .nil [] rfl fun _ => rfl]
      rfl
    | cons a as =>
      rw [List.map_cons, slots, List.all_cons, ih, List.length_cons, hstep a as rfl fun _ => rfl]
      rfl

/-- A contract admits the calls that have the arguments of its stub at the positions of the stub, if
these are compared by content. -/
theorem admits_ofStub {stub : Call} (hcomparable : ∀ v ∈ stub.arguments, v.isComparable = true)
    (c : Call) :
    (ofStub stub).admits c = (stub.arguments == c.argumentsAt stub.arguments.length) := by
  rw [admits, pattern_ofStub hcomparable, all_slots_exactly]
  rfl

/-- If there are real calls, but the contract admits none of them, it fails with all of them as
evidence. -/
theorem verify_of_admits_none {contract : Contract} {real : List Call} (hreal : real ≠ [])
    (hnone : ∀ c ∈ real, contract.admits c = false) (h : Hierarchy) :
    contract.verify real h = some (.noMatchingCalls contract.text (contract.evidence real)) := by
  have hfitting : real.filter contract.admits = [] :=
    List.filter_eq_nil_iff.mpr fun c hc => by simp [hnone c hc]
  rw [verify, if_neg (by simp [hreal])]
  simp only [hfitting, List.isEmpty_nil, if_true]

/-- If the contract admits a real call, it does not fail for want of one. -/
theorem verify_of_admits {contract : Contract} {real : List Call} {c : Call} (hc : c ∈ real)
    (hadmits : contract.admits c = true) (h : Hierarchy) (pattern : String)
    (captured : List String) :
    contract.verify real h ≠ some (.noMatchingCalls pattern captured) := by
  have hreal : real ≠ [] := List.ne_nil_of_mem hc
  have hfitting : real.filter contract.admits ≠ [] :=
    List.ne_nil_of_mem (List.mem_filter.mpr ⟨hc, hadmits⟩)
  rw [verify, if_neg (by simpa using hreal)]
  simp only [List.isEmpty_iff, hfitting, if_false]
  split <;> simp

/-- **Foreign arguments do not back a stub.** Let all arguments of a stub be compared by content. If
there are real calls, and the stub would answer none of them as they look at its positions, then its
contract fails for want of a matching call, in every hierarchy. It does not fail so if the stub
would answer one of the real calls as it is. -/
theorem verify_of_foreign_arguments {stub : Call}
    (hcomparable : ∀ v ∈ stub.arguments, v.isComparable = true) {real : List Call}
    (hreal : real ≠ []) (h : Hierarchy) :
    ((∀ c ∈ real, stub.fits (c.argumentsAt stub.arguments.length) = false) →
      (ofStub stub).verify real h =
        some (.noMatchingCalls (ofStub stub).text ((ofStub stub).evidence real))) ∧
    ((∃ c ∈ real, stub.fits c.arguments = true) → ∀ pattern captured,
      (ofStub stub).verify real h ≠ some (.noMatchingCalls pattern captured)) := by
  constructor
  · intro hforeign
    refine verify_of_admits_none hreal (fun c hc => ?_) h
    rw [admits_ofStub hcomparable]
    exact (Bool.or_eq_false_iff.mp (hforeign c hc)).2
  · rintro ⟨c, hc, hfits⟩
    refine verify_of_admits hc ?_ h
    rw [admits_ofStub hcomparable]
    rcases Bool.or_eq_true_iff.mp hfits with hempty | hequal
    · rw [List.isEmpty_iff.mp hempty]
      rfl
    · rw [Value.length_eq_of_beq hequal, c.argumentsAt_length]
      exact hequal

end Contract

/-! ### Stubs of a tax office -/

/-- The income tax of a year, with the refunds there were. -/
def incomeTax (arguments : List Value) (result : Value) : Call :=
  { target := .instances "TaxCalculator", method := "for_income", arguments, result := some result }

/-- A stub for a year and its refunds is backed neither by the year alone nor by the year with other
refunds. -/
theorem verify_of_other_refunds :
    let stub := incomeTax [.int 2020, .array [.int 50, .nil]] (.int 1)
    let real := [incomeTax [.int 2020] (.int 3), incomeTax [.int 2020, .array [.int 50]] (.int 2)]
    (∀ v ∈ stub.arguments, v.isComparable = true) ∧ real ≠ [] ∧
      (∀ c ∈ real, stub.fits (c.argumentsAt stub.arguments.length) = false) ∧
      (Contract.ofStub stub).verify real .builtin = some (.noMatchingCalls
        (Contract.ofStub stub).text ((Contract.ofStub stub).evidence real)) := by
  intro stub real
  have hcomparable : ∀ v ∈ stub.arguments, v.isComparable = true := by decide
  have hforeign : ∀ c ∈ real, stub.fits (c.argumentsAt stub.arguments.length) = false := by decide
  have hreal : real ≠ [] := List.cons_ne_nil _ _
  exact ⟨hcomparable, hreal, hforeign,
    (Contract.verify_of_foreign_arguments hcomparable hreal .builtin).1 hforeign⟩

/-- A contract takes a missing argument for nil and overlooks further arguments: two real calls back
a stub that would answer neither of them. -/
theorem surplus_and_missing_arguments :
    let stub := incomeTax [.int 2020, .nil] (.int 1)
    let shorter := incomeTax [.int 2020] (.int 3)
    let longer := incomeTax [.int 2020, .nil, .int 7] (.int 3)
    stub.arguments ≠ [] ∧ (∀ v ∈ stub.arguments, v.isComparable = true) ∧
      (∀ c ∈ [shorter, longer], c.key = stub.key ∧ stub.fits c.arguments = false) ∧
      ∀ h, (Contract.ofStub stub).verify [shorter] h = none ∧
        (Contract.ofStub stub).verify [longer] h = none := by
  intro stub shorter longer
  exact ⟨by decide, by decide, by decide, fun _ => ⟨rfl, rfl⟩⟩

end MockAudit

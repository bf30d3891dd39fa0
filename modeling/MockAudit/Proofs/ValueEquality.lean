import MockAudit.Value.Equality
import Mathlib.Data.List.Forall2

/-!
# Equal values and their parts

Equality of values is not an equivalence: an undefined number differs from itself, two large
integers may equal one floating-point number, and the comparison of maps runs in one direction. How
far it goes wrong depends on what a value holds, at any depth. So the values that occur in a value
are made a relation of their own, and equality of collections is put in terms of their members.

An undefined number is the only obstacle to equality with itself: a value equals itself if it holds
none (`Value.beq_self`), and equals nothing if it does (`Value.ne_of_nan_isPartOf`).

## Main definitions

* `Value.IsPartOf`: one value occurs in another, at any depth.
* `Value.isScalar`: the value is no collection.
* `Value.Matches`: equality of the entries of maps.

## Main results

* `Value.induction`: induction over values, with the members of collections as premises.
* `Value.array_beq_iff`, `Value.map_beq_iff`: equality of collections by their members.
* `Value.beq_self_iff`: what equals itself is what holds no undefined number.
-/

namespace MockAudit

/-- In lists that are related one by one, each member of the first has a counterpart. -/
theorem exists_mem_of_forall₂ {α β : Type} {R : α → β → Prop} {as : List α} {bs : List β} {a : α}
    (h : List.Forall₂ R as bs) (ha : a ∈ as) : ∃ b ∈ bs, R a b := by
  induction h with
  | nil => cases ha
  | @cons a' b _ _ hab _ ih =>
    rcases List.mem_cons.mp ha with rfl | ha
    · exact ⟨b, List.mem_cons_self .., hab⟩
    · obtain ⟨b', hb', hab'⟩ := ih ha
      exact ⟨b', List.mem_cons_of_mem _ hb', hab'⟩

namespace Value

/-! ### Parts -/

/-- The first value is the second, or occurs in it as an item, or in the key or the value of an
entry. -/
inductive IsPartOf (u : Value) : Value → Prop
  | itself : IsPartOf u u
  | item {v : Value} {items : List Value} (h : IsPartOf u v) (hv : v ∈ items) :
    IsPartOf u (array items)
  | key {e : Value × Value} {entries : List (Value × Value)} (h : IsPartOf u e.1)
    (he : e ∈ entries) : IsPartOf u (map entries)
  | value {e : Value × Value} {entries : List (Value × Value)} (h : IsPartOf u e.2)
    (he : e ∈ entries) : IsPartOf u (map entries)

/-- What occurs in a part of a value occurs in the value. -/
theorem IsPartOf.trans {u v w : Value} (huv : u.IsPartOf v) (hvw : v.IsPartOf w) :
    u.IsPartOf w := by
  induction hvw with
  | itself => exact huv
  | item _ hv ih => exact ih.item hv
  | key _ he ih => exact ih.key he
  | value _ he ih => exact ih.value he

/-- Whether a value is no collection. -/
def isScalar : Value → Bool
  | array _ | map _ => false
  | _ => true

/-- Nothing else occurs in a scalar. -/
theorem IsPartOf.eq_of_isScalar {u v : Value} (h : u.IsPartOf v) (hscalar : v.isScalar = true) :
    u = v := by
  cases h with
  | itself => rfl
  | item => cases hscalar
  | key => cases hscalar
  | value => cases hscalar

/-- Induction over values: what is shown of a collection may use the members of the collection. -/
@[elab_as_elim]
theorem induction {motive : Value → Prop} (nil : motive nil) (bool : ∀ b, motive (bool b))
    (int : ∀ i, motive (int i)) (float : ∀ x, motive (float x)) (str : ∀ s, motive (str s))
    (symbol : ∀ name, motive (symbol name))
    (array : ∀ items, (∀ v ∈ items, motive v) → motive (array items))
    (map : ∀ entries, (∀ e ∈ entries, motive e.1 ∧ motive e.2) → motive (map entries))
    (type : ∀ name, motive (type name)) (object : ∀ identity type, motive (object identity type))
    (double : ∀ d, motive (double d)) : ∀ v, motive v
  | .nil => nil
  | .bool b => bool b
  | .int i => int i
  | .float x => float x
  | .str s => str s
  | .symbol name => symbol name
  | .array items => array items fun v _ =>
    induction nil bool int float str symbol array map type object double v
  | .map entries => map entries fun e he =>
    have hsize : sizeOf e.1 + sizeOf e.2 < sizeOf entries := by
      have hentry := List.sizeOf_lt_of_mem he
      rw [Prod.mk.sizeOf_spec] at hentry
      omega
    ⟨induction nil bool int float str symbol array map type object double e.1,
      induction nil bool int float str symbol array map type object double e.2⟩
  | .type name => type name
  | .object identity t => object identity t
  | .double d => double d

/-! ### Equality of collections -/

/-- Equality of entries: both the keys and the values are equal. -/
def Matches (e f : Value × Value) : Prop :=
  e.1 == f.1 ∧ e.2 == f.2

private theorem equalItems_iff {as bs : List Value} :
    equalItems as bs = true ↔ List.Forall₂ (fun a b => a == b) as bs := by
  induction as generalizing bs with
  | nil => cases bs <;> simp [equalItems]
  | cons a as ih => cases bs with
    | nil => simp [equalItems]
    | cons b bs => rw [equalItems, Bool.and_eq_true, ih, List.forall₂_cons, beq_def]

private theorem coveredBy_iff {as bs : List (Value × Value)} :
    coveredBy as bs = true ↔ ∀ e ∈ as, ∃ f ∈ bs, Matches e f := by
  induction as with
  | nil => simp [coveredBy]
  | cons e as ih =>
    rw [coveredBy, Bool.and_eq_true, ih, List.forall_mem_cons, List.any_eq_true]
    simp only [Bool.and_eq_true, Matches, beq_def]

/-- Arrays are equal if their items are, one by one. -/
theorem array_beq_iff {as : List Value} {w : Value} :
    array as == w ↔ ∃ bs, w = array bs ∧ List.Forall₂ (fun a b => a == b) as bs := by
  cases w <;> simp [beq_def, equal, equalItems_iff]

/-- A map equals a map of the same size in which each of its entries occurs. -/
theorem map_beq_iff {as : List (Value × Value)} {w : Value} :
    map as == w ↔
      ∃ bs, w = map bs ∧ as.length = bs.length ∧ ∀ e ∈ as, ∃ f ∈ bs, Matches e f := by
  cases w <;> simp [beq_def, equal, coveredBy_iff]

/-! ### Equality of a value with itself -/

/-- A value without undefined numbers equals itself. -/
theorem beq_self {v : Value} (hnan : ¬(float .nan).IsPartOf v) : v == v := by
  induction v using Value.induction with
  | float x => exact Binary64.equal_self fun hx => hnan (hx ▸ .itself)
  | array items ih =>
    refine array_beq_iff.mpr ⟨items, rfl, List.forall₂_same.mpr fun v hv => ?_⟩
    exact ih v hv fun h => hnan (h.item hv)
  | map entries ih =>
    refine map_beq_iff.mpr ⟨entries, rfl, rfl, fun e he => ⟨e, he, ?_, ?_⟩⟩
    · exact (ih e he).1 fun h => hnan (h.key he)
    · exact (ih e he).2 fun h => hnan (h.value he)
  | _ => simp [beq_def, equal]

/-- A value that holds an undefined number equals nothing. -/
theorem ne_of_nan_isPartOf {v w : Value} (hnan : (float .nan).IsPartOf v) : ¬v == w := by
  intro hw
  induction hnan generalizing w with
  | itself => cases w <;> simp [beq_def, equal, Binary64.equal] at hw
  | item _ hv ih =>
    obtain ⟨bs, -, hitems⟩ := array_beq_iff.mp hw
    obtain ⟨b, -, hb⟩ := exists_mem_of_forall₂ hitems hv
    exact ih hb
  | key _ he ih =>
    obtain ⟨bs, -, -, hcovered⟩ := map_beq_iff.mp hw
    obtain ⟨f, -, hf⟩ := hcovered _ he
    exact ih hf.1
  | value _ he ih =>
    obtain ⟨bs, -, -, hcovered⟩ := map_beq_iff.mp hw
    obtain ⟨f, -, hf⟩ := hcovered _ he
    exact ih hf.2

/-- A value equals itself if and only if it holds no undefined number. -/
theorem beq_self_iff {v : Value} : v == v ↔ ¬(float .nan).IsPartOf v :=
  ⟨fun h hnan => ne_of_nan_isPartOf hnan h, beq_self⟩

end Value

end MockAudit

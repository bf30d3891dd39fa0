import MockAudit.Proofs.ValueEquality
import MockAudit.Proofs.Verdicts
import Mathlib.Data.List.Zip

/-!
# Stubs that a real call backs

A stub is backed by a real call like it. Which objects and doubles were passed does not matter: an
argument that holds one is not compared by content, so the contract of the stub expects nothing at
its place; and an argument that is compared by content holds none, its keys apart, and has to equal
what was really passed. There equality is asked of two values that are the same, and holds unless an
undefined number occurs in them.

The keys of a map are not looked at when it is decided whether the map is compared by content, but
they are compared. So this holds of stubs without objects and doubles in the keys of maps
(`Contract.verify_ofStub_of_recast`).

## Main definitions

* `Value.Recast`: a value with other objects and doubles in it.
* `Value.HasPlainKeys`: no object and no double occurs in the key of a map.

## Main results

* `Value.hasIdentity_of_isPartOf`: what is compared by content holds no objects and doubles.
* `Value.Recast.eq`: without objects and doubles there is nothing to replace.
* `Contract.admits_ofStub_of_recast`: the contract of a stub admits a call like it.
-/

namespace MockAudit

namespace Value

/-- Whether a value is compared by its identity. -/
def hasIdentity : Value → Bool
  | object _ _ | double _ => true
  | _ => false

/-- The second value is the first with objects and doubles, at any depth, replaced by others. -/
inductive Recast : Value → Value → Prop
  | itself (v : Value) : Recast v v
  | other {v v' : Value} (h : v.hasIdentity = true) (h' : v'.hasIdentity = true) : Recast v v'
  | array {as bs : List Value} (h : List.Forall₂ Recast as bs) : Recast (array as) (array bs)
  | map {as bs : List (Value × Value)}
    (hkeys : List.Forall₂ Recast (as.map Prod.fst) (bs.map Prod.fst))
    (hvalues : List.Forall₂ Recast (as.map Prod.snd) (bs.map Prod.snd)) :
    Recast (map as) (map bs)

/-- In the keys of the maps that occur in the value there are no objects and no doubles. -/
def HasPlainKeys (v : Value) : Prop :=
  ∀ entries, (map entries).IsPartOf v → ∀ e ∈ entries, ∀ u : Value, u.IsPartOf e.1 →
    u.hasIdentity = false

theorem HasPlainKeys.part {u v : Value} (h : v.HasPlainKeys) (hpart : u.IsPartOf v) :
    u.HasPlainKeys :=
  fun entries hentries => h entries (hentries.trans hpart)

theorem allComparable_iff {items : List Value} :
    allComparable items = true ↔ ∀ v ∈ items, v.isComparable = true := by
  induction items with
  | nil => simp [allComparable]
  | cons v vs ih => rw [allComparable, Bool.and_eq_true, ih, List.forall_mem_cons]

theorem allValuesComparable_iff {entries : List (Value × Value)} :
    allValuesComparable entries = true ↔ ∀ e ∈ entries, e.2.isComparable = true := by
  induction entries with
  | nil => simp [allValuesComparable]
  | cons e rest ih => rw [allValuesComparable, Bool.and_eq_true, ih, List.forall_mem_cons]

/-- A value that is compared by content holds no objects and no doubles, if its keys do not. -/
theorem hasIdentity_of_isPartOf {u v : Value} (hpart : u.IsPartOf v)
    (hcomparable : v.isComparable = true) (hkeys : v.HasPlainKeys) : u.hasIdentity = false := by
  induction hpart with
  | itself => cases u <;> first | rfl | cases hcomparable
  | item _ hv ih =>
    rw [isComparable, allComparable_iff] at hcomparable
    exact ih (hcomparable _ hv) (hkeys.part (.item .itself hv))
  | key hpart he _ => exact hkeys _ .itself _ he _ hpart
  | value _ he ih =>
    rw [isComparable, allValuesComparable_iff] at hcomparable
    exact ih (hcomparable _ he) (hkeys.part (.value .itself he))

private theorem eq_of_forall₂ {α : Type} {R : α → α → Prop} {as bs : List α}
    (h : List.Forall₂ R as bs) (heq : ∀ a ∈ as, ∀ b, R a b → a = b) : as = bs := by
  induction h with
  | nil => rfl
  | @cons a b as bs hab _ ih =>
    rw [heq a (List.mem_cons_self ..) b hab, ih fun a ha => heq a (List.mem_cons_of_mem _ ha)]

/-- A value without objects and doubles is left as it is. -/
theorem Recast.eq {v v' : Value} (h : v.Recast v')
    (hplain : ∀ u : Value, u.IsPartOf v → u.hasIdentity = false) : v = v' := by
  induction v using Value.induction generalizing v' with
  | array as ih =>
    cases h with
    | itself => rfl
    | other h => cases h
    | array h =>
      exact congrArg Value.array (eq_of_forall₂ h fun a ha b hab =>
        ih a ha hab fun u hu => hplain u (hu.item ha))
  | map as ih =>
    cases h with
    | itself => rfl
    | other h => cases h
    | @map _ bs hkeys hvalues =>
      have hfst : as.map Prod.fst = bs.map Prod.fst := by
        refine eq_of_forall₂ hkeys (List.forall_mem_map.mpr fun e he k hk => ?_)
        exact (ih e he).1 hk fun u hu => hplain u (hu.key he)
      have hsnd : as.map Prod.snd = bs.map Prod.snd := by
        refine eq_of_forall₂ hvalues (List.forall_mem_map.mpr fun e he w hw => ?_)
        exact (ih e he).2 hw fun u hu => hplain u (hu.value he)
      rw [List.zip_of_prod hfst hsnd, ← List.zip_of_prod rfl rfl]
  | _ =>
    cases h with
    | itself => rfl
    | other h => exact absurd (hplain _ .itself) (by rw [h]; nofun)

end Value

namespace Contract

open Value

/-- The contract of a stub admits the arguments of the stub with other objects and doubles. -/
theorem admits_ofStub_of_recast {stub c : Call}
    (hnan : ∀ v ∈ stub.arguments, ¬(float .nan).IsPartOf v)
    (hkeys : ∀ v ∈ stub.arguments, v.HasPlainKeys)
    (hargs : List.Forall₂ Recast stub.arguments c.arguments) :
    (ofStub stub).admits c := by
  rw [admits_iff]
  intro i p hp
  obtain ⟨hplace, rfl⟩ := List.getElem?_eq_some_iff.mp hp
  have hi : i < stub.arguments.length := by simpa [ofStub] using hplace
  have hi' : i < c.arguments.length := hargs.length_eq ▸ hi
  have hrecast : stub.arguments[i].Recast c.arguments[i] := hargs.get hi hi'
  have hmem : stub.arguments[i] ∈ stub.arguments := List.getElem_mem hi
  rw [List.getElem?_eq_getElem hi', Option.getD_some]
  simp only [ofStub, List.getElem_map]
  split
  · next hcomparable =>
    have heq : stub.arguments[i] = c.arguments[i] :=
      hrecast.eq fun _ hpart => hasIdentity_of_isPartOf hpart hcomparable (hkeys _ hmem)
    rw [← heq]
    exact beq_self (hnan _ hmem)
  · rfl

/-- **A stub is backed by a call like it.** Let no undefined number occur in the arguments of a
stub, and no object or double in the key of a map. If one of the real calls has these arguments,
with other objects and doubles, and a result of the promised type, then the contract of the stub
passes. In particular, a value without undefined numbers equals itself. -/
theorem verify_ofStub_of_recast {stub : Call}
    (hnan : ∀ v ∈ stub.arguments, ¬(float .nan).IsPartOf v)
    (hkeys : ∀ v ∈ stub.arguments, v.HasPlainKeys) (h : Hierarchy) {real : List Call} {c : Call}
    (hc : c ∈ real) (hargs : List.Forall₂ Recast stub.arguments c.arguments)
    (hresult : h.isSubtype c.resultOrNil.typeName (ofStub stub).returnType) :
    (ofStub stub).verify real h = none ∧ ∀ v : Value, ¬(float .nan).IsPartOf v → v == v :=
  ⟨verify_eq_none_iff.mpr ⟨c, hc, admits_ofStub_of_recast hnan hkeys hargs, hresult⟩,
    fun _ => beq_self⟩

/-! ### A stubbed payment -/

theorem hasPlainKeys_of_isScalar {v : Value} (hscalar : v.isScalar = true) : v.HasPlainKeys := by
  intro entries hpart
  rw [← hpart.eq_of_isScalar hscalar] at hscalar
  cases hscalar

private theorem hasPlainKeys_array {items : List Value} (h : ∀ v ∈ items, v.HasPlainKeys) :
    (array items).HasPlainKeys := by
  intro entries hpart
  cases hpart with
  | item hpart hv => exact h _ hv entries hpart

private theorem hasPlainKeys_map {entries : List (Value × Value)}
    (hkeys : ∀ e ∈ entries, ∀ u : Value, u.IsPartOf e.1 → u.hasIdentity = false)
    (hvalues : ∀ e ∈ entries, e.2.HasPlainKeys) : (map entries).HasPlainKeys := by
  intro entries' hpart e' he' u hu
  cases hpart with
  | itself => exact hkeys e' he' u hu
  | key hpart he => exact hkeys _ he u ((hu.key he').trans hpart)
  | value hpart he => exact hvalues _ he entries' hpart e' he' u hu

/-- A payment from an account to others, at rates that are given twice. -/
def pay (source : Value) (targets : List Value) (result : Value) : Call where
  target := .instances "Bank"
  method := "pay"
  arguments := [source, array targets,
    map [(symbol "rate", float (.finite false 3 (-1))), (symbol "rate", int 2)]]
  result := some result

/-- A payment was made between other accounts than in the stub, and gave a receipt of a special kind
where the stub promises a receipt. -/
theorem verify_ofStub_of_payment :
    let account (identity : Nat) := object identity "Account"
    let stub := pay (double ⟨1, none, .instanceOf "Account"⟩) [account 2, int 5]
      (double ⟨3, none, .instanceOf "Receipt"⟩)
    let real := pay (account 4) [double ⟨5, some "target", .plain⟩, int 5] (object 6 "TaxReceipt")
    let h : Hierarchy := fun t => if t = "TaxReceipt" then some "Receipt" else none
    (∀ v ∈ stub.arguments, ¬(float .nan).IsPartOf v) ∧
      (∀ v ∈ stub.arguments, v.HasPlainKeys) ∧
      List.Forall₂ Recast stub.arguments real.arguments ∧
      h.isSubtype real.resultOrNil.typeName (ofStub stub).returnType ∧
      (ofStub stub).verify [incomeTax [] nil, real] h = none := by
  intro account stub real h
  have hnan : ∀ v ∈ stub.arguments, ¬(float .nan).IsPartOf v := by
    have hself : ∀ v ∈ stub.arguments, v == v := by decide
    exact fun v hv => beq_self_iff.mp (hself v hv)
  have hkeys : ∀ v ∈ stub.arguments, v.HasPlainKeys := by
    have hrate : ∀ u : Value, u.IsPartOf (symbol "rate") → u.hasIdentity = false :=
      fun u hu => hu.eq_of_isScalar rfl ▸ rfl
    refine List.forall_mem_cons.mpr ⟨hasPlainKeys_of_isScalar rfl, List.forall_mem_cons.mpr
      ⟨hasPlainKeys_array (List.forall_mem_cons.mpr ⟨hasPlainKeys_of_isScalar rfl,
        List.forall_mem_singleton.mpr (hasPlainKeys_of_isScalar rfl)⟩),
      List.forall_mem_singleton.mpr (hasPlainKeys_map ?_ ?_)⟩⟩
    · exact List.forall_mem_cons.mpr ⟨hrate, List.forall_mem_singleton.mpr hrate⟩
    · exact List.forall_mem_cons.mpr ⟨hasPlainKeys_of_isScalar rfl,
        List.forall_mem_singleton.mpr (hasPlainKeys_of_isScalar rfl)⟩
  have hargs : List.Forall₂ Recast stub.arguments real.arguments :=
    .cons (.other rfl rfl) (.cons (.array (.cons (.other rfl rfl) (.cons (.itself _) .nil)))
      (.cons (.itself _) .nil))
  have hresult : h.isSubtype real.resultOrNil.typeName (ofStub stub).returnType := by decide
  exact ⟨hnan, hkeys, hargs, hresult,
    (verify_ofStub_of_recast hnan hkeys h (List.mem_cons_of_mem _ (List.mem_singleton_self real))
      hargs hresult).1⟩

end Contract

end MockAudit

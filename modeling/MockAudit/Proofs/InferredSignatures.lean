import MockAudit.Proofs.Filtering
import MockAudit.Proofs.NamedFlags
import MockAudit.Verification
import Mathlib.Data.List.Induction

/-!
# Inferred signatures accept their samples

A signature is inferred from all real calls of a method together: each positional slot, each keyword
and the result collect the types that were seen there. If no test double flows through the calls,
the inferred signature accepts every one of them (`Signature.check_profile`), although they may
differ in the number of their arguments, in their keywords and in the way they ended. An audit in
which all mocked calls repeat real ones therefore finds no offenders, as long as nothing but the
real calls tells the signatures of their methods (`TypePass.run_samples`).

## Main definitions

* `Call.positionalValues`: the positional arguments, where they are defined.
* `Inference.profile`: what inference finds out about one method.
* `Checker.authoritative?`: the signature a checker knows of a method without any inference.

## Main results

* `Inference.infer_of_positional`: inference succeeds on calls that have positional arguments.
* `Signature.check_profile`: an inferred signature accepts the calls it was inferred from.
* `Checker.signature?_learn`: a checker that learned signatures uses them.
* `TypePass.run_samples`: an audit of mocked calls that repeat real ones finds no offender.
-/

namespace MockAudit

/-! ### Types that accept values -/

@[simp] theorem mem_sortedNames {name : String} {names : List String} :
    name ∈ sortedNames names ↔ name ∈ names := by
  rw [sortedNames, List.mem_mergeSort, List.mem_eraseDups]

private theorem find?_beq_self {name : String} {names : List String} (h : name ∈ names) :
    names.find? (· == name) = some name := by
  have hsome : (names.find? (· == name)).isSome = true :=
    List.find?_isSome.mpr ⟨name, h, beq_self_eq_true name⟩
  obtain ⟨found, hfound⟩ := Option.isSome_iff_exists.mp hsome
  have hname : found = name := beq_iff_eq.mp (List.find?_some (p := (· == name)) hfound)
  rw [hfound, hname]

/-- What is no double reveals its runtime type. -/
theorem Value.sampledType?_eq {v : Value} (h : v.isDouble = false) :
    v.sampledType? = some v.typeName := by
  cases v <;> first | rfl | cases h

/-- What is no double inhabits its runtime type. -/
theorem Value.inhabits_typeName {v : Value} (h : v.isDouble = false) (hierarchy : Hierarchy) :
    v.inhabits v.typeName hierarchy = true := by
  cases v <;> first | exact hierarchy.isSubtype_self _ | cases h

/-- A union of named types accepts the values of its members. -/
theorem TypeExpr.accepts_ofNames {v : Value} {names : List TypeName} (h : v.isDouble = false)
    (hmem : v.typeName ∈ names) (receiver : TypeName) (hierarchy : Hierarchy) :
    (ofNames names).accepts v receiver hierarchy = true := by
  match names, hmem with
  | [name], hmem =>
    obtain rfl := List.mem_singleton.mp hmem
    exact v.inhabits_typeName h hierarchy
  | name :: name' :: names, hmem =>
    change anyAccepts v receiver hierarchy ((name :: name' :: names).map .named) = true
    rw [anyAccepts_eq_any, List.any_map, List.any_eq_true]
    exact ⟨v.typeName, hmem, v.inhabits_typeName h hierarchy⟩

/-! ### Calls with positional arguments -/

namespace Call

/-- The positional arguments of a call where they are defined. -/
def positionalValues (c : Call) : List Value :=
  match c.positional with
  | .ok vs => vs
  | .error _ => []

private theorem IsDoubleFree.positional_eq {c : Call} (h : c.IsDoubleFree) :
    c.positional = .ok c.positionalValues ∧ ∀ v ∈ c.positionalValues, v.isDouble = false := by
  obtain ⟨vs, hvs, hfree⟩ := h.positional
  rw [positionalValues, hvs]
  exact ⟨rfl, hfree⟩

/-- The positional arguments are defined unless the named flag is set over an empty list. -/
theorem positional_eq_of_flag {c : Call} (h : c.namedFlag = some true → c.arguments ≠ []) :
    c.positional = .ok c.positionalValues := by
  obtain ⟨vs, hvs⟩ := isWellFlagged_iff.mp h
  rw [positionalValues, hvs]

theorem mem_arguments_of_mem_positionalValues {c : Call} {v : Value}
    (h : v ∈ c.positionalValues) : v ∈ c.arguments := by
  rw [positionalValues, positional] at h
  split_ifs at h
  · cases h
  · exact (List.dropLast_sublist c.arguments).subset h
  · exact h

end Call

theorem mapM_eq_ok {α β ε : Type} {f : α → Except ε β} {g : α → β} {as : List α}
    (h : ∀ a ∈ as, f a = .ok (g a)) : as.mapM f = .ok (as.map g) := by
  induction as with
  | nil => rfl
  | cons a as ih =>
    obtain ⟨ha, has⟩ := List.forall_mem_cons.mp h
    rw [List.mapM_cons, ha, ih has]
    rfl

theorem exists_of_mapM_eq_ok {α β ε : Type} {f : α → Except ε β} {as : List α} {bs : List β}
    (h : as.mapM f = .ok bs) : ∀ a ∈ as, ∃ b, f a = .ok b := by
  induction as generalizing bs with
  | nil => exact List.forall_mem_nil _
  | cons a as ih =>
    rw [List.mapM_cons] at h
    obtain ⟨b, ha, hrest⟩ := exists_of_bind_eq_ok h
    obtain ⟨bs, has, -⟩ := exists_of_bind_eq_ok hrest
    exact List.forall_mem_cons.mpr ⟨⟨b, ha⟩, ih has⟩

namespace Inference

/-- What inference finds out about one method. -/
def profile (key : MethodRef) (calls : List Call) : UsageProfile :=
  let rows := calls.map Call.positionalValues
  { target := key.1
    method := key.2
    positional := (List.range (width rows)).map (slotAt rows)
    named := keywordTypes (calls.flatMap (·.named))
    returns := if key.2 == constructorName then .self else .union (resultTypes calls)
    samples := calls.length }

private theorem ofGroup_of_positional {key : MethodRef} {calls : List Call}
    (h : ∀ c ∈ calls, c.positional = .ok c.positionalValues) :
    ofGroup key calls = .ok (profile key calls) := by
  rw [ofGroup, mapM_eq_ok h]
  rfl

/-- The calls of one method. -/
def callsOf (real : List Call) (key : MethodRef) : List Call :=
  real.filter (·.key == key)

/-- Inference succeeds on calls with positional arguments, with one profile for each method. -/
theorem infer_of_positional {real : List Call}
    (h : ∀ c ∈ real, c.positional = .ok c.positionalValues) :
    infer real = .ok ((methods real).map fun key => profile key (callsOf real key)) :=
  mapM_eq_ok fun _ _ => ofGroup_of_positional fun c hc => h c (List.mem_of_mem_filter hc)

theorem infer_eq_ok {real : List Call} (hfree : ∀ c ∈ real, c.IsDoubleFree) :
    infer real = .ok ((methods real).map fun key => profile key (callsOf real key)) :=
  infer_of_positional fun c hc => (hfree c hc).positional_eq.1

/-! ### Slots -/

private theorem length_le_width {rows : List (List Value)} {row : List Value} (h : row ∈ rows) :
    row.length ≤ width rows := by
  have hfold (n : Nat) : n ≤ rows.foldl (fun n row => max n row.length) n ∧
      ∀ row ∈ rows, row.length ≤ rows.foldl (fun n row => max n row.length) n := by
    clear h
    induction rows generalizing n with
    | nil => exact ⟨Nat.le_refl n, by simp⟩
    | cons first rows ih =>
      obtain ⟨hn, hrows⟩ := ih (max n first.length)
      refine ⟨Nat.le_trans (Nat.le_max_left _ _) hn, List.forall_mem_cons.mpr ⟨?_, hrows⟩⟩
      exact Nat.le_trans (Nat.le_max_right _ _) hn
  exact (hfold 0).2 row h

/-- A slot that every argument list reaches lies within each of them. -/
theorem lt_length_of_not_isOptional {rows : List (List Value)} {row : List Value} (h : row ∈ rows)
    {index : Nat} (hslot : (slotAt rows index).isOptional = false) : index < row.length := by
  rw [slotAt, List.any_eq_false] at hslot
  simpa using hslot row h

private theorem countP_range_le {p : Nat → Bool} {bound : Nat} (h : ∀ i, p i = true → i < bound)
    (n : Nat) : (List.range n).countP p ≤ bound := by
  induction n with
  | zero => exact Nat.zero_le bound
  | succ n ih =>
    rw [List.range_succ, List.countP_append, List.countP_singleton]
    by_cases hp : p n = true
    · have hn := h n hp
      have hle : (List.range n).countP p ≤ (List.range n).length := List.countP_le_length
      rw [List.length_range] at hle
      rw [if_pos hp]
      omega
    · rw [if_neg hp, Nat.add_zero]
      exact ih

/-- A slot collects the types of the values found there. -/
theorem typeName_mem_slotAt {rows : List (List Value)} {row : List Value} (h : row ∈ rows)
    {index : Nat} {v : Value} (hv : row[index]? = some v) (hfree : v.isDouble = false) :
    v.typeName ∈ (slotAt rows index).types := by
  rw [slotAt, mem_sortedNames, List.mem_filterMap]
  exact ⟨row, h, by rw [hv, Option.bind_some, Value.sampledType?_eq hfree]⟩

/-- The types seen under the name of a keyword. -/
def typesUnder (entries : List (Value × Value)) (name : String) : List TypeName :=
  sortedNames ((entries.filter (Signature.keyName ·.1 == name)).filterMap (·.2.sampledType?))

private theorem typeName_mem_typesUnder {entries : List (Value × Value)} {e : Value × Value}
    (h : e ∈ entries) (hfree : e.2.isDouble = false) :
    e.2.typeName ∈ typesUnder entries (Signature.keyName e.1) := by
  rw [typesUnder, mem_sortedNames, List.mem_filterMap]
  exact ⟨e, List.mem_filter.mpr ⟨h, by simp⟩, Value.sampledType?_eq hfree⟩

private theorem typeName_mem_resultTypes {calls : List Call} {c : Call} (h : c ∈ calls)
    (hraised : c.raised = none) (hfree : c.resultOrNil.isDouble = false) :
    c.resultOrNil.typeName ∈ resultTypes calls := by
  rw [resultTypes, mem_sortedNames, List.mem_filterMap]
  exact ⟨c, List.mem_filter.mpr ⟨h, by simp [hraised]⟩, Value.sampledType?_eq hfree⟩

end Inference

/-! ### Checking -/

namespace Signature

/-- Positional arguments whose types are accepted are no violations. -/
theorem positionalViolations_eq_nil {s : Signature} {receiver : TypeName} {h : Hierarchy}
    {vs : List Value} {index : Nat}
    (haccepts : ∀ i v expected, vs[i]? = some v → s.positionalType? (index + i) = some expected →
      expected.accepts v receiver h = true) :
    s.positionalViolations receiver h index vs = [] := by
  induction vs generalizing index with
  | nil => rfl
  | cons v vs ih =>
    have hrest : s.positionalViolations receiver h (index + 1) vs = [] := by
      refine ih fun i v' expected hv hexpected => haccepts (i + 1) v' expected hv ?_
      rwa [Nat.add_comm i, ← Nat.add_assoc]
    rw [positionalViolations, hrest, List.append_nil]
    cases hexpected : s.positionalType? index with
    | none => rfl
    | some expected => exact if_pos (haccepts 0 v expected rfl hexpected)

variable {key : MethodRef} {calls : List Call} {c : Call}

open Inference

/-- The arguments of a sampled call are not taken apart: the longest sample has a place for each of
them. -/
theorem separateArguments_profile (hfree : ∀ c ∈ calls, c.IsDoubleFree) (hc : c ∈ calls) :
    (profile key calls).toSignature.separateArguments c = .ok (c.positionalValues, c.named) := by
  have hpositional := (hfree c hc).positional_eq.1
  cases hnamed : c.hasNamed with
  | true =>
    rw [separateArguments, if_pos hnamed, hpositional]
    rfl
  | false =>
    have harguments : c.positionalValues = c.arguments := by
      rw [Call.positional, hnamed] at hpositional
      exact (Except.ok.inj hpositional).symm
    have hnil : c.named = [] := by rw [Call.named, hnamed]; rfl
    have hwidth : c.arguments.length ≤ (profile key calls).toSignature.positional.length := by
      have hle := length_le_width (List.mem_map_of_mem (f := Call.positionalValues) hc)
      rw [harguments] at hle
      simpa [UsageProfile.toSignature, profile] using hle
    rw [separateArguments, hnamed, harguments, hnil]
    simp only [Bool.false_eq_true, if_false]
    split
    · rw [if_neg]
      simp [Nat.not_lt.mpr hwidth]
    · rfl

/-- The number of positional arguments of a sampled call is allowed. -/
theorem fitsArity_profile (hc : c ∈ calls) :
    (profile key calls).toSignature.fitsArity c.positionalValues.length = true := by
  set rows := calls.map Call.positionalValues
  have hrow : c.positionalValues ∈ rows := List.mem_map_of_mem hc
  have hleast : (profile key calls).toSignature.leastPositional ≤ c.positionalValues.length := by
    rw [leastPositional, UsageProfile.toSignature, profile, List.countP_map, List.countP_map]
    refine countP_range_le (fun i hi => lt_length_of_not_isOptional hrow ?_) (width rows)
    simpa using hi
  have hmost : c.positionalValues.length ≤
      (profile key calls).toSignature.positional.length := by
    simpa [UsageProfile.toSignature, profile] using length_le_width hrow
  rw [fitsArity, Bool.and_eq_true, Bool.or_eq_true, decide_eq_true_iff, decide_eq_true_iff]
  exact ⟨hleast, .inr hmost⟩

/-- The type that an inferred signature expects at a position. -/
theorem positionalType?_profile {index : Nat} {expected : TypeExpr}
    (h : (profile key calls).toSignature.positionalType? index = some expected) :
    expected = .ofNames (slotAt (calls.map Call.positionalValues) index).types := by
  have hrest : (profile key calls).toSignature.rest = none := rfl
  rw [positionalType?, hrest, Option.or_none] at h
  simp only [UsageProfile.toSignature, profile, List.map_map, List.getElem?_map,
    Option.map_map] at h
  obtain ⟨i, hi, rfl⟩ := Option.map_eq_some_iff.mp h
  obtain ⟨_, hindex⟩ := List.getElem?_eq_some_iff.mp hi
  rw [List.getElem_range] at hindex
  rw [hindex]
  rfl

theorem positionalViolations_profile (hfree : ∀ c ∈ calls, c.IsDoubleFree) (hc : c ∈ calls)
    (receiver : TypeName) (h : Hierarchy) :
    (profile key calls).toSignature.positionalViolations receiver h 0 c.positionalValues = [] := by
  refine positionalViolations_eq_nil fun i v expected hv hexpected => ?_
  have hdouble := (hfree c hc).positional_eq.2 v (List.mem_of_getElem? hv)
  rw [Nat.zero_add] at hexpected
  rw [positionalType?_profile hexpected]
  exact TypeExpr.accepts_ofNames hdouble
    (typeName_mem_slotAt (List.mem_map_of_mem hc) hv hdouble) receiver h

/-- The type that an inferred signature expects under a name that occurs in the samples. -/
theorem keywordType?_profile (key : MethodRef) {name : String}
    (hname : name ∈ (calls.flatMap (·.named)).map (keyName ·.1)) :
    (profile key calls).toSignature.keywordType? name =
      some (.ofNames (typesUnder (calls.flatMap (·.named)) name)) := by
  have hfind : (profile key calls).toSignature.named.find? (·.name == name) =
      some ⟨name, .ofNames (typesUnder (calls.flatMap (·.named)) name), false⟩ := by
    have hname' := find?_beq_self (mem_sortedNames.mpr hname)
    simp only [UsageProfile.toSignature, profile, keywordTypes, List.map_map, List.find?_map]
    simp only [Function.comp_def, hname']
    rfl
  rw [keywordType?, hfind]
  rfl

theorem keywordViolation_profile (hfree : ∀ c ∈ calls, c.IsDoubleFree) (hc : c ∈ calls)
    (receiver : TypeName) (h : Hierarchy) {e : Value × Value} (he : e ∈ c.named) :
    (profile key calls).toSignature.keywordViolation receiver h e = none := by
  have hmem : e ∈ calls.flatMap (·.named) := List.mem_flatMap.mpr ⟨c, hc, he⟩
  have htype := keywordType?_profile key (List.mem_map_of_mem hmem)
  have hdouble := (hfree c hc).named e he
  rw [keywordViolation, htype]
  exact if_pos (TypeExpr.accepts_ofNames hdouble (typeName_mem_typesUnder hmem hdouble) receiver h)

/-- No keyword of an inferred signature is required. -/
theorem missingKeywords_profile (entries : List (Value × Value)) :
    (profile key calls).toSignature.missingKeywords entries = [] := by
  rw [missingKeywords, List.map_eq_nil_iff, List.filter_eq_nil_iff]
  intro p hp
  obtain ⟨-, -, rfl⟩ := List.mem_map.mp hp
  simp

theorem returnViolation_profile (hfree : ∀ c ∈ calls, c.IsDoubleFree) (hc : c ∈ calls)
    (hkey : c.key = key) (receiver : TypeName) (h : Hierarchy) :
    (profile key calls).toSignature.returnViolation receiver h c = none := by
  rw [returnViolation]
  by_cases hconstructor : c.isConstructor = true
  · rw [hconstructor]
    rfl
  by_cases hraised : c.raised = none
  · have hmethod : (key.2 == constructorName) = false := by
      rw [← hkey]
      exact Bool.eq_false_iff.mpr hconstructor
    have hdouble := (hfree c hc).result
    have hreturns : (profile key calls).toSignature.returns = .ofNames (resultTypes calls) := by
      simp only [UsageProfile.toSignature, profile, hmethod, Bool.false_eq_true, if_false]
    rw [hreturns, TypeExpr.accepts_ofNames hdouble
      (typeName_mem_resultTypes hc hraised hdouble) receiver h, Bool.or_true]
    rfl
  · rw [Option.isSome_iff_ne_none.mpr hraised, Bool.or_true]
    rfl

/-- **Soundness for samples.** The signature inferred from the calls of one method, through none of
which a double flows, accepts each of them. -/
theorem check_profile (hfree : ∀ c ∈ calls, c.IsDoubleFree) (hc : c ∈ calls) (hkey : c.key = key)
    (h : Hierarchy) : (profile key calls).toSignature.check c h = .ok none := by
  have hviolations : (profile key calls).toSignature.violations c h = .ok [] := by
    rw [violations, separateArguments_profile hfree hc]
    have hnamed : c.named.filterMap
        ((profile key calls).toSignature.keywordViolation c.target.type h) = [] :=
      List.filterMap_eq_nil_iff.mpr fun e he => keywordViolation_profile hfree hc _ h he
    simp only [bind, Except.bind, pure, Except.pure, fitsArity_profile hc, if_true,
      positionalViolations_profile hfree hc, hnamed, missingKeywords_profile,
      returnViolation_profile hfree hc hkey]
    rfl
  rw [check, hviolations]
  rfl

end Signature

/-! ### Checkers that learned signatures -/

theorem SignatureTable.storeAll_concat (table : SignatureTable)
    (entries : List (MethodRef × Signature)) (last : MethodRef × Signature) :
    table.storeAll (entries ++ [last]) = (table.storeAll entries).store last.1 last.2 := by
  rw [storeAll, storeAll, List.foldl_append]
  rfl

/-- The last of several signatures stored for a method is found. -/
theorem SignatureTable.storeAll_of_mem (table : SignatureTable)
    {entries : List (MethodRef × Signature)} {key : MethodRef} (h : key ∈ entries.map (·.1)) :
    ∃ s, (key, s) ∈ entries ∧ table.storeAll entries key = some s := by
  induction entries using List.reverseRecOn with
  | nil => cases h
  | append_singleton entries last ih =>
    rw [storeAll_concat, store]
    by_cases hlast : key = last.1
    · refine ⟨last.2, ?_, if_pos hlast⟩
      rw [hlast]
      exact List.mem_append_right entries (List.mem_singleton_self last)
    · rw [List.map_append, List.mem_append] at h
      have hold : key ∈ entries.map (·.1) :=
        h.resolve_right fun hmem => hlast (List.mem_singleton.mp hmem)
      obtain ⟨s, hs, hfound⟩ := ih hold
      exact ⟨s, List.mem_append_left [last] hs, (if_neg hlast).trans hfound⟩

/-- After profiles were stored, a method with one among them has the signature of one of them. -/
theorem SignatureTable.storeAll_profiles (table : SignatureTable) {profiles : List UsageProfile}
    {s : UsageProfile} (hs : s ∈ profiles) :
    ∃ t ∈ profiles, t.key = s.key ∧
      table.storeAll (profiles.map fun t => (t.key, t.toSignature)) s.key =
        some t.toSignature := by
  have hmem : s.key ∈ (profiles.map fun t => (t.key, t.toSignature)).map (·.1) := by
    rw [List.map_map]
    exact List.mem_map_of_mem hs
  obtain ⟨found, hfound, heq⟩ := table.storeAll_of_mem hmem
  obtain ⟨t, ht, hentry⟩ := List.mem_map.mp hfound
  obtain ⟨hkey, rfl⟩ := Prod.mk.inj hentry
  exact ⟨t, ht, hkey, heq⟩

namespace Checker

/-- The signature a checker knows of a method without any inference: its annotation, or its
declaration in the signature files. -/
def authoritative? (checker : Checker) (env : Environment) (key : MethodRef) : Option Signature :=
  match checker with
  | annotations _ => env.annotated? key.1 key.2
  | signatures d => d.declared key

/-- A checker that learned a signature of a method uses it, as long as it knows no better one. -/
theorem signature?_learn {checker : Checker} {env : Environment} {inferred : List UsageProfile}
    {s : UsageProfile} (hs : s ∈ inferred) (hauth : checker.authoritative? env s.key = none) :
    ∃ t ∈ inferred, t.key = s.key ∧
      (checker.learn inferred).signature? env s.key = some t.toSignature := by
  cases checker with
  | annotations table =>
    have hnone : env.annotated? s.key.1 s.key.2 = none := hauth
    obtain ⟨t, ht, hkey, hfound⟩ := table.storeAll_profiles hs
    refine ⟨t, ht, hkey, ?_⟩
    rw [learn, signature?, hnone, Option.none_or, hfound]
  | signatures d =>
    have hnone : d.declared s.key = none := hauth
    -- What is declared is not learned, but nothing is declared for this method.
    have hunshadowed : s ∈ inferred.filter fun s => (d.declared s.key).isNone :=
      List.mem_filter.mpr ⟨hs, Option.isNone_iff_eq_none.mpr hnone⟩
    obtain ⟨t, ht, hkey, hfound⟩ := d.inferred.storeAll_profiles hunshadowed
    refine ⟨t, List.mem_of_mem_filter ht, hkey, ?_⟩
    rw [learn, signature?, Declarations.signature?, hnone, Option.none_or]
    exact hfound

end Checker

/-! ### Audits of repeated calls -/

namespace Inference

variable {real : List Call} {inferred : List UsageProfile} {c : Call}

/-- Inference gives each method that was called a signature. -/
theorem exists_mem_infer (hfree : ∀ c ∈ real, c.IsDoubleFree) (hinfer : infer real = .ok inferred)
    (hc : c ∈ real) : ∃ s ∈ inferred, s.key = c.key := by
  obtain rfl := Except.ok.inj ((infer_eq_ok hfree).symm.trans hinfer)
  have hmethod : c.key ∈ methods real := by
    rw [methods, List.mem_eraseDups]
    exact List.mem_map_of_mem hc
  exact ⟨_, List.mem_map_of_mem hmethod, rfl⟩

/-- Each call passes the check against the signature inferred for its method. -/
theorem check_infer (hfree : ∀ c ∈ real, c.IsDoubleFree) (hinfer : infer real = .ok inferred)
    (hc : c ∈ real) {s : UsageProfile} (hs : s ∈ inferred) (hkey : s.key = c.key) (h : Hierarchy) :
    s.toSignature.check c h = .ok none := by
  obtain rfl := Except.ok.inj ((infer_eq_ok hfree).symm.trans hinfer)
  obtain ⟨key, -, rfl⟩ := List.mem_map.mp hs
  have hgroup : c ∈ callsOf real key := List.mem_filter.mpr ⟨hc, beq_iff_eq.mpr hkey.symm⟩
  exact Signature.check_profile (fun c hc => hfree c (List.mem_of_mem_filter hc)) hgroup
    hkey.symm h

end Inference

namespace TypePass

theorem offenses_eq_nil {checker : Checker} {env : Environment} {strict : Bool}
    {mocked : List Call} (h : ∀ c ∈ mocked, checker.check env c strict = .ok none) :
    offenses checker env strict mocked = .ok [] := by
  induction mocked with
  | nil => rfl
  | cons c mocked ih =>
    obtain ⟨hc, hmocked⟩ := List.forall_mem_cons.mp h
    rw [offenses, hc, ih hmocked]
    rfl

/-- The pass learns what inference finds and answers the offenders among the mocked calls. -/
theorem run_eq_ok {checker : Checker} {env : Environment} {real mocked found : List Call}
    {strict : Bool} {inferred : List UsageProfile} (hinfer : Inference.infer real = .ok inferred)
    (hfound : offenses (checker.learn inferred) env strict mocked = .ok found) :
    ∃ pass, run checker env real mocked strict = .ok pass ∧
      pass.value = (checker.learn inferred, found) := by
  rw [run, hinfer]
  simp only [bind, Except.bind, hfound]
  exact ⟨_, rfl, rfl⟩

/-- **Inference is sound for its samples.** If no double flows through the real calls, inference
succeeds, each real call passes the check against the signature of its method in any hierarchy,
and an audit of mocked calls that repeat real ones finds no offender, strict or not, as long as
nothing but the real calls tells the signatures of their methods. -/
theorem run_samples {checker : Checker} {env : Environment} {real mocked : List Call}
    (hfree : ∀ c ∈ real, c.IsDoubleFree) (hmocked : ∀ c ∈ mocked, c ∈ real)
    (hauth : ∀ c ∈ real, checker.authoritative? env c.key = none) (strict : Bool) :
    ∃ inferred pass, Inference.infer real = .ok inferred ∧
      (∀ c ∈ real, (∃ s ∈ inferred, s.key = c.key) ∧
        ∀ s ∈ inferred, s.key = c.key → ∀ h, s.toSignature.check c h = .ok none) ∧
      run checker env real mocked strict = .ok pass ∧ pass.value.2 = [] := by
  obtain ⟨inferred, hinfer⟩ : ∃ inferred, Inference.infer real = .ok inferred :=
    ⟨_, Inference.infer_eq_ok hfree⟩
  have hcheck : ∀ c ∈ real, (∃ s ∈ inferred, s.key = c.key) ∧
      ∀ s ∈ inferred, s.key = c.key → ∀ h, s.toSignature.check c h = .ok none := fun c hc =>
    ⟨Inference.exists_mem_infer hfree hinfer hc, fun s hs hkey h =>
      Inference.check_infer hfree hinfer hc hs hkey h⟩
  have hpass : ∀ c ∈ mocked, (checker.learn inferred).check env c strict = .ok none := by
    intro c hc
    have hreal := hmocked c hc
    obtain ⟨⟨s, hs, hkey⟩, hsamples⟩ := hcheck c hreal
    obtain ⟨t, ht, htkey, hfound⟩ := Checker.signature?_learn hs (hkey ▸ hauth c hreal)
    rw [hkey] at hfound htkey
    rw [Checker.check, hfound]
    simp only [hsamples t ht htkey]
    rfl
  obtain ⟨pass, hrun, hvalue⟩ := run_eq_ok hinfer (offenses_eq_nil hpass)
  exact ⟨inferred, pass, hinfer, hcheck, hrun, congrArg Prod.snd hvalue⟩

end TypePass

/-! ### Two quotes -/

/-- Two calls of one method: the first gives an argument more, the second a keyword. -/
def quotes : List Call :=
  [{ target := .typeItself "Quote", method := "price", arguments := [.str "SKU", .int 2],
     result := some (.int 40) },
   { target := .typeItself "Quote", method := "price",
     arguments := [.str "SKU", .map [(.symbol "rush", .bool true)]],
     namedFlag := some true, raised := some "sold out" }]

theorem quotes_isDoubleFree : ∀ c ∈ quotes, c.IsDoubleFree := by
  intro c hc
  obtain rfl | rfl : c = quotes[0] ∨ c = quotes[1] := by simpa [quotes] using hc
  · refine ⟨rfl, ⟨[.str "SKU", .int 2], rfl, by simp [Value.isDouble]⟩, ?_⟩
    simp [quotes, Call.named, Call.hasNamed]
  · refine ⟨rfl, ⟨[.str "SKU"], rfl, by simp [Value.isDouble]⟩, ?_⟩
    simp [quotes, Call.named, Call.hasNamed, Value.isDouble, Value.entries?]

/-- A mocked call that repeats one of the quotes passes a strict audit. -/
theorem run_samples_of_quotes :
    ∃ inferred pass, Inference.infer quotes = .ok inferred ∧
      (∀ c ∈ quotes, (∃ s ∈ inferred, s.key = c.key) ∧
        ∀ s ∈ inferred, s.key = c.key → ∀ h, s.toSignature.check c h = .ok none) ∧
      TypePass.run (.fresh .annotations) Catalog.empty.environment quotes [quotes[1]] true =
        .ok pass ∧ pass.value.2 = [] :=
  TypePass.run_samples quotes_isDoubleFree
    (fun _ hc => List.mem_singleton.mp hc ▸ List.getElem_mem _) (fun _ _ => rfl) true

end MockAudit

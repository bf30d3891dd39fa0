import MockAudit.Proofs.BatchAudit
import MockAudit.Recording.Basic

/-!
# Offline verdicts

A record of a call keeps what was called, the arguments, what came back, where it happened and how
it ended. The form in which the implementation takes its arguments is not among it, and the named
flag follows from that form where it is not fixed; a record therefore holds the flag itself. Reading
a record gives back the call with its flag fixed (`Call.recorded`), if the last separator in its
method reference is the one between type and method.

Inference, checking and contracts see no difference between a call and what is read back
(`Inference.infer_recorded`, `Checker.check_recorded`, `ContractPass.failure?_recorded`). Recorded
types have lost their methods, but not their superclasses (`Recording.hierarchy_catalog`). So as
long as no method is annotated, both passes reach the same verdicts on the recorded calls that they
reach on the calls themselves.

## Main definitions

* `Call.recorded`: what is read back of a call.
* `Call.IsRecordable`: a call whose record can be read.
* `Catalog.IsMethodless`: a catalog of types without methods.

## Main results

* `RecordedCall.toCall_ofCall`: what is read back of a recordable call.
* `Recording.hierarchy_catalog`: recorded types keep their superclasses.
* `exists_offline_verdicts`: the verdicts on recorded calls are those on the calls themselves.
-/

namespace MockAudit

/-! ### Recorded calls -/

namespace Call

/-- What is read back of a call: the form of its method is forgotten, and the flag that may follow
from that form is fixed. -/
def recorded (c : Call) : Call :=
  { c with namedFlag := some c.hasNamed, shape := none, failure := none }

/-- A call that agrees with another one in all that is recorded. -/
structure AgreesWith (c d : Call) : Prop where
  target : d.target = c.target
  method : d.method = c.method
  arguments : d.arguments = c.arguments
  hasNamed : d.hasNamed = c.hasNamed
  positional : d.positional = c.positional
  named : d.named = c.named
  isCompleted : d.isCompleted = c.isCompleted
  resultOrNil : d.resultOrNil = c.resultOrNil
  receiver : d.receiver = c.receiver
  location : d.location = c.location
  testCase : d.testCase = c.testCase
  raised : d.raised = c.raised

variable {c : Call}

theorem agreesWith_recorded : c.AgreesWith c.recorded := by
  constructor <;> rfl

@[simp] theorem recorded_key : c.recorded.key = c.key := rfl

@[simp] theorem recorded_positional : c.recorded.positional = c.positional := rfl

@[simp] theorem recorded_named : c.recorded.named = c.named := rfl

@[simp] theorem recorded_raised : c.recorded.raised = c.raised := rfl

@[simp] theorem recorded_resultOrNil : c.recorded.resultOrNil = c.resultOrNil := rfl

/-- The flag that is fixed for a well-flagged call has an argument to stand for. -/
theorem IsWellFlagged.recorded (h : c.IsWellFlagged) : c.recorded.IsWellFlagged := by
  rw [isWellFlagged_iff, recorded_positional]
  exact isWellFlagged_iff.mp h

/-- A call whose record can be read: its method reference falls apart at the separator between type
and method, and its arguments do at the named flag. -/
structure IsRecordable (c : Call) : Prop where
  type : c.target.type ≠ ""
  method : c.method ≠ ""
  unseparated : ∀ mark ∈ c.method.toList, mark ≠ '#' ∧ mark ≠ '.'
  isWellFlagged : c.IsWellFlagged

end Call

/-- **Reading a record** of a recordable call gives the call back, but for the form of its method
and a failure. -/
theorem RecordedCall.toCall_ofCall {c : Call} (h : c.IsRecordable) :
    (RecordedCall.ofCall c).toCall = .ok c.recorded := by
  have hmethod : MethodRef.parse? (RecordedCall.ofCall c).method = some (c.target, c.method) :=
    MethodRef.parse?_describe h.type h.method h.unseparated
  have hflag : (RecordedCall.ofCall c).namedFlag.getD false = c.hasNamed := by
    rw [RecordedCall.ofCall]
    cases c.hasNamed <;> rfl
  rw [RecordedCall.toCall, hmethod, hflag]
  rfl

/-! ### What verification sees of a call -/

section

variable {calls : List Call}

private theorem Inference.ofGroup_recorded (key : MethodRef) :
    ofGroup key (calls.map Call.recorded) = ofGroup key calls := by
  simp [ofGroup, resultTypes, List.mapM_map, List.flatMap_map, List.filter_map,
    List.filterMap_map, Function.comp_def]

/-- Inference finds out the same. -/
theorem Inference.infer_recorded : infer (calls.map Call.recorded) = infer calls := by
  simp [infer, methods, ofGroup_recorded, List.filter_map, Function.comp_def]

/-- A contract is borne out by the same. -/
theorem Contract.verify_recorded (contract : Contract) (h : Hierarchy) :
    contract.verify (calls.map Call.recorded) h = contract.verify calls h := by
  have hadmits : contract.admits ∘ Call.recorded = contract.admits := rfl
  have hkeeps : contract.keeps h ∘ Call.recorded = contract.keeps h := rfl
  have hevidence (group : List Call) :
      contract.evidence (group.map Call.recorded) = contract.evidence group := by
    rw [evidence, List.map_map]
    rfl
  rw [verify, verify, hevidence, List.isEmpty_map, List.filter_map, hadmits]
  simp only [List.isEmpty_map, List.any_map, hkeeps, hevidence]

end

/-! ### Recorded types -/

/-- There is no entry under what is no key. -/
theorem Entries.find?_of_notMem {α : Type} {entries : Entries α} {key : String}
    (h : key ∉ entries.map (·.1)) : entries.find? key = none := by
  induction entries with
  | nil => rfl
  | cons entry rest ih =>
    rw [List.map_cons, List.mem_cons, not_or] at h
    rw [find?, if_neg (Ne.symm h.1)]
    exact ih h.2

namespace Catalog

variable {c : Catalog} {name t : TypeName}

/-- A catalog of types without methods. -/
def IsMethodless (c : Catalog) : Prop :=
  ∀ name d, c.find? name = some d → ∀ onType, d.methods onType = []

private theorem isMethodless_empty : empty.IsMethodless := fun _ _ h => nomatch h

theorem find?_define (d : TypeDeclaration) : (c.define name d).find? t =
    if name = t then some ((c.find? name).elim d (·.merge d)) else c.find? t :=
  c.types.find?_store name _ t

/-- A type that comes without methods adds none. -/
theorem IsMethodless.define (h : c.IsMethodless) (superclass : Option TypeName) :
    (c.define name { superclass }).IsMethodless := by
  intro t d hd onType
  rw [find?_define] at hd
  split_ifs at hd with hname
  · obtain rfl := Option.some.inj hd
    cases hfound : c.find? name with
    | none => cases onType <;> rfl
    | some known =>
      have hknown := h name known hfound onType
      cases onType <;> exact hknown
  · exact h t d hd onType

/-- Without methods there are no annotations. -/
theorem IsMethodless.annotated?_eq_none (h : c.IsMethodless) (target : Target) (name : String) :
    c.annotated? target name = none := by
  have hlookup (visits : Nat) (t : TypeName) :
      c.lookupFrom target.onType name visits t = none := by
    induction visits generalizing t with
    | zero => rfl
    | succ visits ih =>
      rw [lookupFrom]
      cases hfound : c.find? t with
      | none => rfl
      | some d =>
        simp only [bind, Option.bind, h t d hfound, Entries.find?]
        split
        · rfl
        · exact ih _
  rw [annotated?, lookup, hlookup]
  rfl

/-- The superclass with which a type was declared. -/
def declaredSuperclass (c : Catalog) (t : TypeName) : Option TypeName :=
  (c.find? t).bind (·.superclass)

private theorem declaredSuperclass_define (superclass : Option TypeName) :
    (c.define name { superclass }).declaredSuperclass t =
      if name = t then superclass.or (c.declaredSuperclass t) else c.declaredSuperclass t := by
  rw [declaredSuperclass, find?_define]
  split_ifs with hname
  · subst hname
    rw [declaredSuperclass]
    cases c.find? name with
    | none => exact (Option.or_none).symm
    | some known => rfl
  · rfl

/-- Superclasses are declared for several types, one after the other. -/
theorem declaredSuperclass_foldl_define (superclass : TypeName → Option TypeName)
    (names : List TypeName) (known : Catalog) : (names.foldl (fun known name =>
      known.define name { superclass := superclass name }) known).declaredSuperclass t =
    if t ∈ names then (superclass t).or (known.declaredSuperclass t)
    else known.declaredSuperclass t := by
  induction names generalizing known with
  | nil => rfl
  | cons name names ih =>
    rw [List.foldl_cons, ih, declaredSuperclass_define]
    by_cases hname : name = t
    · subst hname
      -- A superclass that is declared again takes its own place.
      cases superclass name <;> simp
    · simp [hname, Ne.symm hname]

/-- Types without a declaration have no declared superclass. -/
theorem declaredSuperclass_of_notMem (h : t ∉ c.names) : c.declaredSuperclass t = none := by
  rw [names, List.mem_mergeSort] at h
  rw [declaredSuperclass, find?, Entries.find?_of_notMem h]
  rfl

end Catalog

namespace Recording

variable {r : Recording} {c : Catalog}

/-- The catalog of recorded types, from the catalog of those before. -/
theorem catalog_addTypes (r : Recording) (c : Catalog) : (r.addTypes c).catalog =
    c.names.foldl (fun known name => known.define name { superclass := c.declaredSuperclass name })
      Catalog.empty := by
  rw [catalog, addTypes, List.foldl_map]
  rfl

private theorem isMethodless_catalog (r : Recording) : r.catalog.IsMethodless := by
  rw [catalog]
  exact List.foldlRecOn r.types _ Catalog.isMethodless_empty fun _ h t _ => h.define t.superclass

/-- **Recorded types** keep their superclasses. -/
theorem hierarchy_catalog (r : Recording) (c : Catalog) :
    (r.addTypes c).catalog.hierarchy = c.hierarchy := by
  have hdeclared : (r.addTypes c).catalog.declaredSuperclass = c.declaredSuperclass := by
    funext t
    rw [catalog_addTypes, Catalog.declaredSuperclass_foldl_define]
    split_ifs with ht
    · exact Option.or_none
    · exact (Catalog.declaredSuperclass_of_notMem ht).symm
  exact congrArg (Hierarchy.layered · Hierarchy.builtin) hdeclared

end Recording

/-! ### Verdicts -/

variable {real mocked : List Call} {catalog : Catalog}

theorem ContractPass.failure?_recorded (h : Hierarchy) (stub : Call) :
    failure? (real.map Call.recorded) h stub.recorded = failure? real h stub := by
  have hcontract : Contract.ofStub stub.recorded = Contract.ofStub stub := rfl
  have hcalls : (real.map Call.recorded).filter (·.key == stub.recorded.key) =
      (real.filter (·.key == stub.key)).map Call.recorded := by
    rw [List.filter_map]
    rfl
  rw [failure?, failure?, hcontract, hcalls, Contract.verify_recorded]

/-- The contract pass reaches the same verdicts. -/
theorem ContractPass.verdicts_recorded (h : Hierarchy) :
    (mocked.map Call.recorded).map (verdict (real.map Call.recorded) h) =
      mocked.map (verdict real h) := by
  rw [List.map_map]
  refine List.map_congr_left fun stub _ => ?_
  rw [Function.comp_apply, verdict, verdict, failure?_recorded]

/-- A checker without signature files sees no difference between catalogs with the same annotations
and superclasses. -/
theorem Checker.check_recorded {env env' : Environment} (table : SignatureTable)
    (hhierarchy : env'.hierarchy = env.hierarchy) (hannotated : env'.annotated? = env.annotated?)
    (c : Call) (strict : Bool) :
    (annotations table).check env' c.recorded strict = (annotations table).check env c strict := by
  rw [check, check, signature?, signature?, hannotated, hierarchy, hierarchy, hhierarchy]
  rfl

/-- Nor does the type pass reach other verdicts. -/
theorem TypePass.verdicts_recorded {env env' : Environment} (table : SignatureTable)
    (hhierarchy : env'.hierarchy = env.hierarchy) (hannotated : env'.annotated? = env.annotated?)
    (strict : Bool) :
    (mocked.map Call.recorded).map (verdict (.annotations table) env' strict) =
      mocked.map (verdict (.annotations table) env strict) := by
  rw [List.map_map]
  refine List.map_congr_left fun c _ => ?_
  rw [Function.comp_apply, verdict, verdict,
    Checker.check_recorded table hhierarchy hannotated]

/-- **Offline verification** reaches the verdicts of the program itself. The records of recordable
calls can all be read, and what is read agrees with the calls; the recorded types have the
superclasses they had. If nothing is annotated, both passes therefore reach one verdict on each
mocked call, whether they go through the calls themselves or through what was recorded. -/
theorem exists_offline_verdicts (hreal : ∀ c ∈ real, c.IsRecordable)
    (hmocked : ∀ c ∈ mocked, c.IsRecordable)
    (hcatalog : ∀ target name, catalog.annotated? target name = none) :
    ∃ real' mocked' : List Call,
      real.mapM (fun c => (RecordedCall.ofCall c).toCall) = .ok real' ∧
      mocked.mapM (fun c => (RecordedCall.ofCall c).toCall) = .ok mocked' ∧
      List.Forall₂ Call.AgreesWith real real' ∧ List.Forall₂ Call.AgreesWith mocked mocked' ∧
      ∀ r : Recording,
        (r.addTypes catalog).catalog.hierarchy = catalog.hierarchy ∧
        (∀ strict, ∃ pass pass' verdicts,
          TypePass.run (.fresh .annotations) catalog.environment real mocked strict = .ok pass ∧
          TypePass.run (.fresh .annotations) (r.addTypes catalog).catalog.environment real' mocked'
            strict = .ok pass' ∧
          Audited mocked verdicts pass.value.2 ∧ Audited mocked' verdicts pass'.value.2) ∧
        ∃ verdicts,
          Audited mocked verdicts (ContractPass.run real catalog.hierarchy mocked).value ∧
          Audited mocked' verdicts
            (ContractPass.run real' (r.addTypes catalog).catalog.hierarchy mocked').value := by
  have hagree (calls : List Call) : List.Forall₂ Call.AgreesWith calls (calls.map Call.recorded) :=
    List.forall₂_map_right_iff.mpr (List.forall₂_same.mpr fun _ _ => Call.agreesWith_recorded)
  have hflagged {calls : List Call} (h : ∀ c ∈ calls, c.IsRecordable) :
      (∀ c ∈ calls, c.IsWellFlagged) ∧ ∀ c ∈ calls.map Call.recorded, c.IsWellFlagged :=
    ⟨fun c hc => (h c hc).isWellFlagged,
      List.forall_mem_map.mpr fun c hc => (h c hc).isWellFlagged.recorded⟩
  refine ⟨real.map Call.recorded, mocked.map Call.recorded,
    mapM_eq_ok fun c hc => RecordedCall.toCall_ofCall (hreal c hc),
    mapM_eq_ok fun c hc => RecordedCall.toCall_ofCall (hmocked c hc), hagree real, hagree mocked,
    fun r => ⟨r.hierarchy_catalog catalog, fun strict => ?_, ?_⟩⟩
  · have hannotated : (r.addTypes catalog).catalog.annotated? = catalog.annotated? := by
      funext target name
      rw [hcatalog, (r.addTypes catalog).isMethodless_catalog.annotated?_eq_none]
    obtain ⟨inferred, hinfer, hpasses⟩ := TypePass.exists_run (.fresh .annotations)
      catalog.environment strict (hflagged hreal).1
    obtain ⟨inferred', hinfer', hpasses'⟩ := TypePass.exists_run (.fresh .annotations)
      (r.addTypes catalog).catalog.environment strict (hflagged hreal).2
    -- Both passes learn the same signatures.
    rw [Inference.infer_recorded] at hinfer'
    obtain rfl := Except.ok.inj (hinfer.symm.trans hinfer')
    obtain ⟨pass, hrun, -, haudited⟩ := hpasses mocked (hflagged hmocked).1
    obtain ⟨pass', hrun', -, haudited'⟩ := hpasses' _ (hflagged hmocked).2
    have hverdicts : (mocked.map Call.recorded).map (TypePass.verdict
          ((Checker.fresh .annotations).learn inferred) (r.addTypes catalog).catalog.environment
          strict) =
        mocked.map (TypePass.verdict ((Checker.fresh .annotations).learn inferred)
          catalog.environment strict) :=
      TypePass.verdicts_recorded _ (r.hierarchy_catalog catalog) hannotated strict
    rw [hverdicts] at haudited'
    exact ⟨pass, pass', _, hrun, hrun', haudited, haudited'⟩
  · have haudited := ContractPass.audited_run (real.map Call.recorded) catalog.hierarchy
      (mocked.map Call.recorded)
    rw [ContractPass.verdicts_recorded] at haudited
    rw [r.hierarchy_catalog]
    exact ⟨_, ContractPass.audited_run real catalog.hierarchy mocked, haudited⟩

/-! ### Quotes offline -/

private theorem quotes_isRecordable : ∀ c ∈ quotes, c.IsRecordable := by
  intro c hc
  obtain ⟨htarget, hmethod⟩ : c.target = .typeItself "Quote" ∧ c.method = "price" := by
    obtain rfl | rfl : c = quotes[0] ∨ c = quotes[1] := by simpa [quotes] using hc
    · exact ⟨rfl, rfl⟩
    · exact ⟨rfl, rfl⟩
  refine ⟨?_, ?_, ?_, quotes_isWellFlagged c hc⟩
  · rw [htarget]
    decide
  · rw [hmethod]
    decide
  · have hmarks : "price".toList.all (fun mark => mark != '#' && mark != '.') = true := rfl
    intro mark hmark
    rw [hmethod] at hmark
    simpa using List.all_eq_true.mp hmarks mark hmark

/-- Quotes are a kind of paper. -/
def quoteCatalog : Catalog :=
  Catalog.empty.define "Quote" { superclass := some "Paper" }

private theorem annotated?_quoteCatalog (target : Target) (name : String) :
    quoteCatalog.annotated? target name = none :=
  (Catalog.isMethodless_empty.define (some "Paper")).annotated?_eq_none target name

/-- Quotes are recorded together with the type above them, and verified against each other. -/
theorem exists_offline_verdicts_of_quotes : (∀ c ∈ quotes, c.IsRecordable) ∧
    (∀ target name, quoteCatalog.annotated? target name = none) ∧
    ∃ real' mocked' : List Call,
      quotes.mapM (fun c => (RecordedCall.ofCall c).toCall) = .ok real' ∧
      quotes.mapM (fun c => (RecordedCall.ofCall c).toCall) = .ok mocked' ∧
      List.Forall₂ Call.AgreesWith quotes real' ∧ List.Forall₂ Call.AgreesWith quotes mocked' ∧
      ∃ verdicts,
        Audited quotes verdicts (ContractPass.run quotes quoteCatalog.hierarchy quotes).value ∧
        Audited mocked' verdicts (ContractPass.run real'
          (({ : Recording }).addTypes quoteCatalog).catalog.hierarchy mocked').value := by
  obtain ⟨real', mocked', hreal, hmocked, hagree, hagree', hverdicts⟩ :=
    exists_offline_verdicts quotes_isRecordable quotes_isRecordable annotated?_quoteCatalog
  exact ⟨quotes_isRecordable, annotated?_quoteCatalog, real', mocked', hreal, hmocked, hagree,
    hagree', (hverdicts {}).2.2⟩

end MockAudit
